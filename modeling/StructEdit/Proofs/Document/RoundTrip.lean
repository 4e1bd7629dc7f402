import StructEdit.Proofs.Document.Standing
import StructEdit.Proofs.History.Replay

/-!
# Undo and redo

The steps on the two stacks of a document lead from the text it started with to its present
text, and from there on to the texts that can be had back. Inside a transaction the open
group does the same from the text at its start. So every turn keeps the stacks
replayable, and going back and forth along them comes out where it began.
-/
namespace StructEdit

/-- The selection is known and lies in the text. -/
def Landed (o : Option Selection) (t : Text) : Prop := ∃ s, o = some s ∧ s.Within t.length

/-- A change at a place that exists is an edit that can be replayed. -/
theorem Buffer.leads_replace {b : Buffer} {i j : Nat} {s : Text} (hb : '\r' ∉ b.text)
    (hi : min i j ≤ b.maxOffset) (hs : s.ReturnsInBreaks) :
    Edit.Leads ⟨min i j, s.normalizeBreaks, b.slice i j⟩ b.text (b.replace i j s).text := by
  have hclean : '\r' ∉ s.normalizeBreaks := Text.not_mem_return_normalizeBreaks hs
  have htext : (b.replace i j s).text =
      b.text.take (min i j) ++ s.normalizeBreaks ++ b.text.drop (max i j) := by
    rw [Buffer.text_replace, Text.normalizeBreaks_of_not_mem_return hclean]
  refine ⟨hb, ?_, b.text.take (min i j), b.text.drop (max i j), ?_, ?_, htext⟩
  · rw [htext]
    intro hm
    rcases List.mem_append.1 hm with hm | hm
    · rcases List.mem_append.1 hm with hm | hm
      · exact hb (List.mem_of_mem_take hm)
      · exact hclean hm
    · exact hb (List.mem_of_mem_drop hm)
  · rw [List.length_take, b.length_text]
    exact Nat.min_eq_left hi
  · have hcut : b.text.take (min i j) ++ b.slice i j = b.text.take (max i j) := by
      have hle : min i j ≤ max i j := Nat.le_trans (Nat.min_le_left i j) (Nat.le_max_left i j)
      have := List.take_append_drop (min i j) (b.text.take (max i j))
      rwa [List.take_take, Nat.min_eq_left hle, ← b.slice_eq] at this
    rw [hcut, List.take_append_drop]

namespace Document

/-- Both stacks can be replayed, from `origin` to the text and on from there. -/
structure Traced (origin : Text) (d : Document) : Prop where
  clean : '\r' ∉ d.text
  undos : Chain Landed origin d.history.undos d.text
  redos : Awaits Landed d.history.redos d.text

/-- The open group can be replayed from the text of `start` on, and the stacks are those of `start`,
but that nothing can be redone once there is a step in the group. -/
structure Collects (d start : Document) : Prop where
  clean : '\r' ∉ d.text
  undos : d.history.undos = start.history.undos
  group : ∃ steps, d.history.group = some steps ∧
    Chain (fun _ _ => True) start.text steps d.text ∧
    d.history.redos = if steps.isEmpty then start.history.redos else []

theorem text_change (d : Document) (i j : Nat) (s : Text) (before after : Option Selection) :
    (d.change i j s before after).text = (d.buffer.replace i j s).text := by
  rw [text, buffer_change]

theorem Collects.change {start d : Document} {i j : Nat} {s : Text}
    (h : d.Collects start) (hr : d.recording = true) (hi : min i j ≤ d.maxOffset)
    (hs : s.ReturnsInBreaks) (before after : Option Selection) :
    (d.change i j s before after).Collects start := by
  obtain ⟨steps, hg, hchain, -⟩ := h.group
  have hlead := Buffer.leads_replace h.clean hi hs
  have hhistory := history_change hr i j s before after
  simp only [History.add, hg] at hhistory
  constructor
  · rw [text_change]
    exact hlead.2.1
  · rw [hhistory]
    exact h.undos
  · rw [hhistory, text_change]
    exact ⟨_, rfl, hchain.push hlead trivial, by rw [History.isEmpty_push]; rfl⟩

theorem text_flush (d : Document) : d.flush.text = d.text := Buffer.text_flush d.buffer

end Document

theorem Work.collects {start d e : Document} (h : Work True d e) (hb : d.Busy)
    (hd : d.Collects start) : e.Collects start := by
  induction h with
  | refl => exact hd
  | change before after hw hi hs ih =>
    exact ih.change (hw.busy hb).recording hi (hs trivial) before after
  | look _ hbuf hh _ ih =>
    have htext : ∀ {e f : Document}, f.buffer = e.buffer → f.text = e.text :=
      fun hbuf => congrArg Buffer.text hbuf
    constructor
    · exact htext hbuf ▸ ih.clean
    · exact hh ▸ ih.undos
    · rw [hh, htext hbuf]
      exact ih.group
  | @flush e _ ih =>
    constructor
    · exact e.text_flush ▸ ih.clean
    · exact ih.undos
    · exact e.text_flush ▸ ih.group

namespace Document

variable {origin : Text} {d e : Document}

/-! ## One turn -/

structure Spans (d e : Document) (s : Step) : Prop where
  leads : s.Leads d.text e.text
  before : s.trace.before = some d.selection
  after : s.trace.after = some e.selection

/-- Closing the group leaves text and stacks as they were at its start, or puts one step on the first
stack that leads as far as the group did. -/
theorem Collects.endGroup (h : e.Collects d) :
    let closed := e.history.endGroup d.selection e.selection
    (e.text = d.text ∧ closed.undos = d.history.undos ∧ closed.redos = d.history.redos) ∨
    ∃ s, Spans d e s ∧ closed.undos = History.push d.history.undos s ∧ closed.redos = [] := by
  obtain ⟨steps, hg, hchain, hredos⟩ := h.group
  have hall := hchain.leadAll
  unfold History.endGroup
  rw [hg]
  dsimp only
  split
  · rename_i hnil
    obtain rfl : steps = [] := List.reverse_eq_nil_iff.1 hnil
    exact Or.inl ⟨Eq.symm hall, h.undos, hredos⟩
  · rename_i s hone
    rw [hone] at hall
    obtain ⟨t, hs, rfl⟩ := hall
    refine Or.inr ⟨s.withSelections d.selection e.selection, ⟨(Step.leads_withTrace _).2 hs, ?_, ?_⟩,
      ?_, rfl⟩
    · rw [Step.withSelections, Step.trace_withTrace]
    · rw [Step.withSelections, Step.trace_withTrace]
    · rw [History.add, h.undos]
  · refine Or.inr ⟨.group steps.reverse ⟨some d.selection, some e.selection, false⟩,
      ⟨hall, rfl, rfl⟩, ?_, rfl⟩
    rw [History.add, h.undos]

/-- Outside of any other, a transaction leaves text and stacks as they were, or puts one step on the
first stack that leads from the old document to the new one. -/
theorem Performs.spans (hg : d.history.group = none) (hclean : '\r' ∉ d.text)
    (he : d.Performs True e) :
    '\r' ∉ e.text ∧
    ((e.text = d.text ∧ e.history.undos = d.history.undos ∧ e.history.redos = d.history.redos) ∨
    ∃ s, Spans d e s ∧ e.Fits ∧ e.history.undos = History.push d.history.undos s ∧
      e.history.redos = []) := by
  rcases he with rfl | ⟨work, rfl, hw⟩
  · exact ⟨hclean, Or.inl ⟨rfl, rfl, rfl⟩⟩
  · obtain ⟨hwork, hfits⟩ := hw d.begun rfl d.busy_begun
    have hbegun : d.begun.Collects d := by
      simp only [begun, History.beginGroup, hg]
      exact ⟨hclean, rfl, ⟨[], rfl, rfl, rfl⟩⟩
    have hdone := hwork.collects d.busy_begun hbegun
    rw [perform_of_idle hg]
    refine ⟨by rw [text_flush]; exact hdone.clean, ?_⟩
    rcases hdone.endGroup with ⟨htext, hundos, hredos⟩ | ⟨s, hs, hundos, hredos⟩
    · exact Or.inl ⟨(text_flush _).trans htext, hundos, hredos⟩
    · refine Or.inr ⟨s, ⟨?_, hs.before, hs.after⟩, Fits.flush hfits, hundos, hredos⟩
      rw [text_flush]
      exact hs.leads

theorem Traced.performs (h : d.Traced origin) (hg : d.history.group = none)
    (he : d.Performs True e) : e.Traced origin := by
  obtain ⟨hclean, ⟨htext, hundos, hredos⟩ | ⟨s, hs, hfits, hundos, hredos⟩⟩ := he.spans hg h.clean
  · exact ⟨hclean, by rw [hundos, htext]; exact h.undos, by rw [hredos, htext]; exact h.redos⟩
  · have hlanded : Landed s.trace.after e.text := by
      refine ⟨e.selection, hs.after, ?_⟩
      rw [text, Buffer.length_text]
      exact hfits
    exact ⟨hclean, by rw [hundos]; exact h.undos.push hs.leads hlanded, by rw [hredos]; trivial⟩

/-- Redoing a step of the second stack. -/
theorem redo_spec {s : Step} {rest : List Step} {t : Text} (hr : d.history.redos = s :: rest)
    (hlead : s.Leads d.text t) (hok : Landed s.trace.after t) :
    d.redo.text = t ∧ d.redo.history.undos = s :: d.history.undos ∧
      d.redo.history.redos = rest ∧ s.trace.after = some d.redo.selection := by
  have htext : (s.redo d.toPane).buffer.text = t := s.text_redo hlead rfl
  obtain ⟨sel, hafter, hwithin⟩ := hok
  have hsel : (s.redo d.toPane).selection = sel := by
    have hclamp : (s.redo d.toPane).selection =
        sel.clamp (s.redo d.toPane).buffer.maxOffset := by
      cases s <;>
      · simp only [Step.trace] at hafter
        rw [Step.redo, hafter]
        rfl
    rw [hclamp, ← Buffer.length_text, htext]
    exact hwithin.clamp_eq
  unfold redo
  rw [hr]
  refine ⟨?_, rfl, rfl, ?_⟩
  · exact (Buffer.text_flush _).trans htext
  · rw [hafter]
    exact congrArg some hsel.symm

/-- Undoing a step of the first stack. -/
theorem undo_spec {s : Step} {rest : List Step} {t : Text} (hu : d.history.undos = s :: rest)
    (hlead : s.Leads t d.text) :
    d.undo.text = t ∧ d.undo.history.undos = rest ∧
      d.undo.history.redos = s :: d.history.redos := by
  have htext : (s.undo d.toPane).buffer.text = t := s.text_undo hlead rfl
  unfold undo
  rw [hu]
  exact ⟨(Buffer.text_flush _).trans htext, rfl, rfl⟩

theorem undo_of_nil (hu : d.history.undos = []) :
    d.undo.text = d.text ∧ d.undo.history = d.history := by
  unfold undo
  rw [hu]
  exact ⟨Buffer.text_flush _, rfl⟩

theorem redo_of_nil (hr : d.history.redos = []) :
    d.redo.text = d.text ∧ d.redo.history = d.history := by
  unfold redo
  rw [hr]
  exact ⟨Buffer.text_flush _, rfl⟩

theorem Traced.undo (h : d.Traced origin) : d.undo.Traced origin := by
  cases hu : d.history.undos with
  | nil =>
    obtain ⟨htext, hhistory⟩ := undo_of_nil hu
    constructor
    · exact htext ▸ h.clean
    · rw [htext, hhistory]
      exact h.undos
    · rw [htext, hhistory]
      exact h.redos
  | cons s rest =>
    have hchain := h.undos
    rw [hu] at hchain
    obtain ⟨hok, t, hlead, hrest⟩ := hchain
    obtain ⟨rfl, hundos, hredos⟩ := undo_spec hu hlead
    refine ⟨fun hm => h.clean ((s.clean_of_leads hlead).1 hm), hundos ▸ hrest, ?_⟩
    rw [hredos]
    exact ⟨d.text, hlead, hok, h.redos⟩

theorem Traced.redo (h : d.Traced origin) : d.redo.Traced origin := by
  cases hr : d.history.redos with
  | nil =>
    obtain ⟨htext, hhistory⟩ := redo_of_nil hr
    constructor
    · exact htext ▸ h.clean
    · rw [htext, hhistory]
      exact h.undos
    · rw [htext, hhistory]
      exact h.redos
  | cons s rest =>
    have hawaits := h.redos
    rw [hr] at hawaits
    obtain ⟨t, hlead, hok, hrest⟩ := hawaits
    obtain ⟨rfl, hundos, hredos, -⟩ := redo_spec hr hlead hok
    refine ⟨fun hm => h.clean ((s.clean_of_leads hlead).2 hm), ?_, hredos ▸ hrest⟩
    rw [hundos]
    exact ⟨hok, d.text, hlead, h.undos⟩

theorem Traced.act (h : d.Traced origin) (hd : d.Standing) (ha : Act True d e) :
    e.Traced origin := by
  cases ha with
  | look hb hh _ _ =>
    have htext : e.text = d.text := congrArg Buffer.text hb
    exact ⟨htext ▸ h.clean, by rw [htext, hh]; exact h.undos, by rw [htext, hh]; exact h.redos⟩
  | perform he => exact h.performs hd.group he
  | afterSeal he =>
    have hsealed : d.sealHistory.Traced origin := by
      refine ⟨h.clean, h.undos.sealTop, ?_⟩
      have hredos : d.sealHistory.history.redos = d.history.redos := by
        simp only [sealHistory, History.sealTop]
        split <;> rfl
      rw [hredos]
      exact h.redos
    exact hsealed.performs hd.seal.group he

theorem Traced.turn (h : d.Traced origin) (hd : d.Standing) (ht : Turn True d e) :
    e.Traced origin := by
  cases ht with
  | act ha => exact h.act hd ha
  | undo => exact h.undo
  | redo => exact h.redo

theorem Fresh.traced (h : d.Fresh Text.ReturnsInBreaks) : d.Traced d.text := by
  induction h with
  | empty => exact ⟨by decide, rfl, trivial⟩
  | @ofText s hs =>
    refine ⟨?_, rfl, trivial⟩
    rw [show (Document.ofText s).text = s.normalizeBreaks from Buffer.text_ofText hs]
    exact Text.not_mem_return_normalizeBreaks hs
  | withIndent _ _ ih => exact ⟨ih.clean, ih.undos, ih.redos⟩

/-! ## Going back and forth -/

theorem length_undos_undo (h : d.Traced origin) {k : Nat} (hk : k + 1 ≤ d.history.undos.length) :
    k ≤ d.undo.history.undos.length := by
  cases hu : d.history.undos with
  | nil => simp [hu] at hk
  | cons s rest =>
    have hchain := h.undos
    rw [hu] at hchain
    obtain ⟨-, t, hlead, -⟩ := hchain
    rw [(undo_spec hu hlead).2.1]
    simpa [hu] using hk

/-- Back by `k` steps and forth again. Each undo is matched by the last redo, so the induction goes
from the outside in. -/
theorem Traced.back_and_forth (h : d.Traced origin) {k : Nat} (hk : k ≤ d.history.undos.length) :
    let e := Command.runAll (List.replicate k .undo ++ List.replicate k .redo) d
    e.text = d.text ∧ e.history.undos = d.history.undos ∧ e.history.redos = d.history.redos ∧
      (0 < k → ∃ top rest, d.history.undos = top :: rest ∧
        top.trace.after = some e.selection) := by
  induction k generalizing d with
  | zero => exact ⟨rfl, rfl, rfl, fun hpos => absurd hpos (Nat.lt_irrefl 0)⟩
  | succ k ih =>
    cases hu : d.history.undos with
    | nil => simp [hu] at hk
    | cons s rest =>
      have hchain := h.undos
      rw [hu] at hchain
      obtain ⟨hok, t, hlead, -⟩ := hchain
      obtain ⟨htext, hundos, hredos⟩ := undo_spec hu hlead
      obtain ⟨itext, iundos, iredos, -⟩ := ih h.undo (length_undos_undo h hk)
      have hsplit : Command.runAll (List.replicate (k + 1) .undo ++ List.replicate (k + 1) .redo) d =
          (Command.runAll (List.replicate k .undo ++ List.replicate k .redo) d.undo).redo := by
        rw [List.replicate_succ, List.replicate_succ', ← List.append_assoc, List.cons_append,
          List.cons_append, Command.runAll, List.foldl_cons, List.foldl_append]
        rfl
      generalize Command.runAll (List.replicate k .undo ++ List.replicate k .redo) d.undo = f
        at itext iundos iredos hsplit
      rw [hsplit]
      obtain ⟨rtext, rundos, rredos, rsel⟩ :=
        redo_spec (iredos.trans hredos) (by rwa [itext, htext]) hok
      refine ⟨rtext, ?_, rredos, fun _ => ⟨s, rest, rfl, rsel⟩⟩
      rw [rundos, iundos, hundos]

theorem Traced.all_the_way (h : d.Traced origin) :
    (Command.runAll (List.replicate d.history.undos.length .undo) d).text = origin := by
  generalize hn : d.history.undos.length = n
  induction n generalizing d with
  | zero =>
    have hchain := h.undos
    rw [List.length_eq_zero_iff.1 hn] at hchain
    exact hchain
  | succ n ih =>
    obtain ⟨s, rest, hu⟩ := List.exists_cons_of_length_eq_add_one hn
    have hchain := h.undos
    rw [hu] at hchain
    obtain ⟨-, t, hlead, -⟩ := hchain
    have hlen : d.undo.history.undos.length = n := by
      rw [(undo_spec hu hlead).2.1]
      simpa [hu] using hn
    rw [List.replicate_succ, Command.runAll, List.foldl_cons]
    exact ih h.undo hlen

end Document

theorem Command.traced_runAll {origin : Text} {d : Document} (hd : d.Standing)
    (h : d.Traced origin) {cs : List Command}
    (hcs : ∀ c ∈ cs, ∀ s ∈ c.texts, s.ReturnsInBreaks) : (runAll cs d).Traced origin := by
  induction cs generalizing d with
  | nil => exact h
  | cons c cs ih =>
    have hturn : Turn True d (c.apply d) :=
      c.turn_apply hd.fits hd.unbroken (fun _ => h.clean) fun _ => hcs c List.mem_cons_self
    exact ih (hd.turn hturn) (h.turn hd hturn) fun c' hc' => hcs c' (List.mem_cons_of_mem _ hc')

/-- Whatever was done to a new document, undo and redo included: going back by any number of steps
and forth again gives the same text and the same stacks, with the selection that the last step ended
with; and going all the way back gives the text from the start. Carriage returns come only in breaks,
in the text from the start and in those given to commands. -/
theorem undo_redo_runAll {d₀ : Document} (h : d₀.Fresh Text.ReturnsInBreaks) (cs : List Command)
    (hcs : ∀ c ∈ cs, ∀ s ∈ c.texts, s.ReturnsInBreaks) :
    let d := Command.runAll cs d₀
    (∀ k ≤ d.history.undos.length,
      let e := Command.runAll (List.replicate k .undo ++ List.replicate k .redo) d
      e.text = d.text ∧ e.history.undos = d.history.undos ∧ e.history.redos = d.history.redos ∧
        (0 < k → ∃ top rest, d.history.undos = top :: rest ∧
          top.trace.after = some e.selection)) ∧
    (Command.runAll (List.replicate d.history.undos.length .undo) d).text = d₀.text := by
  have hd : (Command.runAll cs d₀).Traced d₀.text :=
    Command.traced_runAll h.standing h.traced hcs
  exact ⟨fun _ hk => hd.back_and_forth hk, hd.all_the_way⟩

/-- Typing in a text with a break of the longer form, then a wrap. -/
theorem undo_redo_runAll_wrap :
    (Command.runAll (List.replicate
        (Command.runAll [.insert ['x', '\r', '\n'], .wrap ['('] [')']]
          (.ofText ['a', '\r', '\n', 'b'])).history.undos.length .undo)
      (Command.runAll [.insert ['x', '\r', '\n'], .wrap ['('] [')']]
        (.ofText ['a', '\r', '\n', 'b']))).text =
      (Document.ofText ['a', '\r', '\n', 'b']).text := by
  refine (undo_redo_runAll (.ofText ?_) _ ?_).2
  · simp [Text.ReturnsInBreaks]
  · simp [Command.texts, Text.ReturnsInBreaks]

end StructEdit
