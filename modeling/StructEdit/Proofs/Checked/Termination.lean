import StructEdit.Proofs.Checked.Commands

/-!
# Loops that end

The loops over addresses come to an end on any text, with brackets that do not match, strings that
are not closed, comments and junk. An inner loop, over blanks or over one expression, has the value
of the motion of the library, which looks at each token once. An outer loop repeats a motion over an
expression until it finds none, and such a motion comes to a later token, or on the way back to an
earlier one, whenever it finds something.

The walk out of the lists also counts them. It stops at its limit, which it lowers itself where a
list opens at the margin, but not before it has looked at one list.
-/
namespace StructEdit

/-! ## The number of lists -/

namespace IndentWalk

variable {w w' : IndentWalk} {table : RuleTable} {limit : Nat}

/-- A walk that goes on: it has noted no list yet, or may note another one. -/
structure Open (limit : Nat) (w : IndentWalk) : Prop where
  depth : w.depth ≤ limit
  room : w.states = [] ∨ w.states.length < w.depth

theorem Open.length_states (h : w.Open limit) : w.states.length ≤ max 1 limit := by
  have hdepth := h.depth
  rcases h.room with hnil | hlt
  · rw [hnil]
    exact Nat.zero_le _
  · omega

/-- One step back notes one list at most, and does not raise the limit. -/
theorem back?_states (h : w.back? table = some w') :
    w'.states.length ≤ w.states.length + 1 ∧ w'.depth ≤ w.depth := by
  simp only [back?] at h
  split at h
  · obtain rfl := Option.some.inj h
    exact ⟨Nat.le_succ _, Nat.le_refl _⟩
  · obtain ⟨outside, -, rfl⟩ := Option.map_eq_some_iff.1 h
    refine ⟨Nat.le_refl _, ?_⟩
    dsimp only
    split
    · exact Nat.zero_le _
    · exact Nat.le_refl _

theorem Open.back? (h : w.Open limit) (hback : w.back? table = some w') :
    w'.depth ≤ limit ∧ w'.states.length ≤ max 1 limit := by
  obtain ⟨hstates, hdepth⟩ := back?_states hback
  refine ⟨Nat.le_trans hdepth h.depth, ?_⟩
  have hlimit := h.depth
  rcases h.room with hnil | hlt
  · rw [hnil, List.length_nil] at hstates
    omega
  · omega

/-- A walk is open as long as it goes on, and the step it ends with notes one more list at most. -/
theorem Open.run (h : w.Open limit) (table : RuleTable) (startRow maxLines : Nat) :
    (w.run table startRow maxLines).states.length ≤ max 1 limit := by
  fun_induction IndentWalk.run table startRow maxLines w with
  | case1 w hnone => exact h.length_states
  | case2 w w' hback _ next hover =>
    rw [states_countExpr, states_countLine]
    exact (h.back? hback).2
  | case3 w w' hback _ next hover ih =>
    refine ih ⟨?_, Or.inr ?_⟩
    · rw [depth_countExpr, depth_countLine]
      exact (h.back? hback).1
    · simp only [isOver, Bool.or_eq_true, decide_eq_true_eq, not_or, Nat.not_le] at hover
      exact hover.2

end IndentWalk

theorem Buffer.length_indentStates (b : Buffer) (offset maxDepth maxLines : Nat)
    (table : RuleTable) :
    1 ≤ (b.indentStates offset maxDepth maxLines table).length ∧
      (b.indentStates offset maxDepth maxLines table).length ≤ max 1 maxDepth := by
  have hopen : (IndentWalk.new ((b.cursorAt offset).backwardSpace true) maxDepth).Open maxDepth :=
    ⟨Nat.le_refl _, Or.inl rfl⟩
  have hle := hopen.run table ((b.cursorAt offset).backwardSpace true).here.row maxLines
  simp only [Buffer.indentStates]
  split
  · exact ⟨Nat.le_refl _, Nat.le_max_left _ _⟩
  · rename_i hsome
    rw [List.isEmpty_iff, ← List.length_eq_zero_iff] at hsome
    exact ⟨Nat.one_le_iff_ne_zero.2 hsome, hle⟩

/-! ## All loops -/

open Checked in
/-- In a buffer that was empty or made from a text, whatever has been done to it before, the loops
over blanks and over one expression end from every cursor and with either flag. A loop over one
expression that finds it has come to a later token, and on the way back to an earlier one. So the
loops over expressions end that look for the ends of a list, for the partner of a bracket and for
the place of a closing bracket, and the walk out of the lists ends with at least one state and not
more than its limit allows. -/
theorem loops_end {d : Document} (hd : d.buffer = .empty ∨ ∃ s, d.buffer = .ofText s)
    (ops : List BufferOp) :
    let b := (BufferOp.runAll ops d).buffer
    (∀ c : Cursor, c.In b →
      (∀ comments : Bool,
        Address.forwardSpace b comments c.address = some (c.forwardSpace comments).address ∧
        Address.backwardSpace b comments c.address = some (c.backwardSpace comments).address ∧
        Address.forwardSexp b comments c.address = some (arrival (c.forwardSexp comments)) ∧
        Address.backSexp b comments c.address = some (arrival (c.backwardSexp comments)) ∧
        ((c.forwardSexp comments).found = true →
          c.start < (c.forwardSexp comments).cursor.start) ∧
        ((c.backwardSexp comments).found = true →
          (c.backwardSexp comments).cursor.start < c.start)) ∧
      forwardList b c.address = some (c.forwardList?.map Cursor.address) ∧
      backwardList b c.address = some (c.backwardList?.map Cursor.address)) ∧
    (∀ offset, bracketAt b offset = some (b.bracketAt? offset)) ∧
    (∀ e : Document, e.buffer = b → ∀ closer, closeList e closer = some (e.closeList closer)) ∧
    ∀ offset maxDepth maxLines table,
      indentStates b offset maxDepth maxLines table =
        some (b.indentStates offset maxDepth maxLines table) ∧
      1 ≤ (b.indentStates offset maxDepth maxLines table).length ∧
      (b.indentStates offset maxDepth maxLines table).length ≤ max 1 maxDepth := by
  intro b
  have hstart : d.buffer.Unbroken := by
    rcases hd with hd | ⟨s, hd⟩ <;> rw [hd]
    · exact Buffer.unbroken_empty
    · exact .ofText s
  have hu : b.Unbroken := BufferOp.unbroken_runAll hstart ops
  refine ⟨fun c hc => ⟨fun comments => ?_, forwardList_eq hc, backwardList_eq hc⟩,
    bracketAt_eq b, fun e _ closer => closeList_eq e closer,
    fun offset maxDepth maxLines table => ?_⟩
  · exact ⟨forwardSpace_eq hc comments, backwardSpace_eq hc comments,
      forwardSexp_eq hc (Or.inr hu), backSexp_eq hc (Or.inr hu),
      hc.lt_forwardSexp, hc.backwardSexp_lt⟩
  · exact ⟨indentStates_eq b offset maxDepth maxLines table,
      b.length_indentStates offset maxDepth maxLines table⟩

open Checked in
/-- From the end of `)]"` and a comment after a line break, which stands in the string. -/
theorem loops_end_unclosed :
    let b := (BufferOp.runAll [.markDirty 0] (.ofText [')', ']', '"', '\n', ';'])).buffer
    Address.backSexp b true (b.cursorAt 5).address = some (true, ⟨0, 2⟩) ∧
      (b.indentStates 5 0 0 .empty).length ≤ max 1 0 := by
  intro b
  have h := loops_end (Or.inr ⟨_, rfl⟩ : (Document.ofText [')', ']', '"', '\n', ';']).buffer =
    .empty ∨ ∃ s, (Document.ofText [')', ']', '"', '\n', ';']).buffer = .ofText s) [.markDirty 0]
  have hback := ((h.1 (b.cursorAt 5) (b.in_cursorAt 5)).1 true).2.2.2.1
  have harrival : arrival ((b.cursorAt 5).backwardSexp true) = (true, ⟨0, 2⟩) := by
    decide +kernel
  exact ⟨hback.trans (congrArg some harrival), (h.2.2.2 5 0 0 .empty).2.2⟩

end StructEdit
