import StructEdit.Proofs.Balance.Convoluting
import StructEdit.Proofs.Balance.Killing
import StructEdit.Proofs.Balance.Raising
import StructEdit.Proofs.Balance.Slurping

/-!
# Structural commands and balanced code

Each structural command leaves balanced code under an exact condition, which says what may go
wrong: a delimiter comes to stand in a comment or a string, or a piece of these is read as code
afterwards, a string is split behind a backslash, or a motion goes out of a list whose brackets
are of another family than the delimiter that it moves.
-/
namespace StructEdit
namespace Command

/-- The commands that edit code by its structure, with delimiters that belong together. -/
def Structural : Command → Prop
  | .wrap opener closer =>
    ∃ k, opener ∈ Bracket.openers ∧ Bracket.ofText? opener = some k ∧ closer = k.closer
  | .split | .join | .splice | .killBackward none | .killForward none | .spliceKillingBackward
  | .spliceKillingForward | .slurpForward | .slurpBackward | .barfForward | .barfBackward
  | .raise | .convolute => True
  | _ => False

/-- The condition under which a structural command at the caret leaves balanced code. -/
def Keeps (c : Command) (d : Document) : Prop :=
  match c with
  | .wrap opener _ =>
    ∀ k, Bracket.ofText? opener = some k → d.buffer.KeepsWrap d.caret k
  | .split => d.buffer.KeepsSplit d.caret
  | .splice => d.buffer.KeepsSplice d.caret
  | .killBackward _ => d.buffer.KeepsKillBackward d.caret
  | .killForward _ => d.buffer.KeepsKillForward d.caret
  | .spliceKillingBackward =>
    Document.KeepsKilling (d.buffer.KeepsKillBackward d.caret) (d.killBackward d.caret) ∨
      d.buffer.MendsKill d.caret
  | .spliceKillingForward =>
    Document.KeepsKilling (d.buffer.KeepsKillForward d.caret) (d.killForward d.caret)
  | .slurpForward => d.buffer.KeepsSlurpForward d.caret
  | .slurpBackward => d.buffer.KeepsSlurpBackward d.caret
  | .barfForward => d.buffer.KeepsBarfForward d.caret
  | .barfBackward => d.buffer.KeepsBarfBackward d.caret
  | .raise => d.buffer.KeepsRaise d.caret
  | .convolute => d.buffer.KeepsConvolute d.caret
  | _ => True

theorem text_balanced_apply_iff {c : Command} (hc : c.Structural) {d : Document}
    (hb : d.buffer.Nested) (hf : d.Fits) (hs : d.selection.isEmpty = true) :
    (c.apply d).buffer.text.Balanced ↔ c.Keeps d := by
  cases c with
  | wrap o e =>
    obtain ⟨k, ho, hk, rfl⟩ := hc
    simp only [Keeps, hk, Option.some.injEq, forall_eq']
    exact Document.balanced_wrap_iff hb hf hs ho hk
  | split => exact Document.balanced_split_iff hb
  | join => exact iff_true_intro (Document.balanced_join hb)
  | splice => exact Document.balanced_splice_iff hb d.caret
  | killBackward offset =>
    cases offset with
    | none => exact Document.balanced_killBackward_iff hb hf
    | some _ => exact hc.elim
  | killForward offset =>
    cases offset with
    | none => exact Document.balanced_killForward_iff hb hf
    | some _ => exact hc.elim
  | spliceKillingBackward => exact Document.balanced_spliceKillingBackward_iff hb hf
  | spliceKillingForward => exact Document.balanced_spliceKillingForward_iff hb hf
  | slurpForward => exact Document.balanced_slurpForward_iff hb
  | slurpBackward => exact Document.balanced_slurpBackward_iff hb
  | barfForward => exact Document.balanced_barfForward_iff hb
  | barfBackward => exact Document.balanced_barfBackward_iff hb
  | raise => exact Document.balanced_raise_iff hb hs
  | convolute => exact Document.balanced_convolute_iff hb hf hs
  | _ => exact hc.elim

end Command

/-- In a balanced document that any commands have led to, with nothing selected, a structural command
leaves a balanced document exactly when its condition holds at the caret. -/
theorem balanced_apply_iff_keeps {d₀ : Document} (h : d₀.Fresh fun _ => True) (cs : List Command) :
    let d := Command.runAll cs d₀
    d.buffer.Balanced → d.selection.isEmpty = true → ∀ c : Command, c.Structural →
      ((c.apply d).buffer.Balanced ↔ c.Keeps d) := by
  intro d hbalanced hempty c hc
  have hd : d.Standing := Command.standing_runAll h.standing cs
  have hnested : d.buffer.Nested :=
    ⟨hd.settled, hd.unbroken, (Buffer.balanced_iff hd.settled hd.unbroken).1 hbalanced⟩
  have hafter : (c.apply d).Standing := Command.standing_runAll hd [c]
  rw [Buffer.balanced_iff hafter.settled hafter.unbroken]
  exact Command.text_balanced_apply_iff hc hnested hd.fits hempty

/-- With the caret before the `b` of `(x (@a b))`, the condition holds for slurping, and fails for
killing backwards: the mark before the `a` takes the motion out of the list. -/
theorem balanced_apply_iff_keeps_mark :
    Command.slurpForward.Keeps
        (Command.runAll [.setCaret 7] (.ofText ['(', 'x', ' ', '(', '@', 'a', ' ', 'b', ')', ')'])) ∧
      ¬(Command.killBackward none).Keeps
        (Command.runAll [.setCaret 7]
          (.ofText ['(', 'x', ' ', '(', '@', 'a', ' ', 'b', ')', ')'])) := by
  have h := balanced_apply_iff_keeps
    (.ofText trivial : Document.Fresh (fun _ => True)
      (.ofText ['(', 'x', ' ', '(', '@', 'a', ' ', 'b', ')', ')']))
    [.setCaret 7] (by decide +kernel) (by decide +kernel)
  rw [← h .slurpForward trivial, ← h (.killBackward none) trivial]
  exact ⟨by decide +kernel, by decide +kernel⟩

/-- Killing backwards there leaves `(b))`. -/
theorem not_balanced_killBackward :
    let d := Command.runAll [.setCaret 7]
      (.ofText ['(', 'x', ' ', '(', '@', 'a', ' ', 'b', ')', ')'])
    d.buffer.Balanced ∧ d.selection.isEmpty = true ∧ (Command.killBackward none).Structural ∧
      ((Command.killBackward none).apply d).text = ['(', 'b', ')', ')'] ∧
      ¬((Command.killBackward none).apply d).buffer.Balanced :=
  ⟨by decide +kernel, by decide +kernel, trivial, by decide +kernel, by decide +kernel⟩

end StructEdit
