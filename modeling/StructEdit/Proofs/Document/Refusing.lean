import StructEdit.Proofs.Balance.Killing

/-!
# Refused commands

A command that refuses gives the document back as it was, down to its history, with one
exception. The commands that kill and then splice look twice whether they are in a string: the
kill looks at the caret, and the splice looks at what the kill has left. The kill may uncover a
string, by taking the semicolon of a comment that holds a quote, or by taking the end of a
string from a blank line inside it. Then the splice refuses, and the kill stays done.
-/
namespace StructEdit

/-! ## Texts and lines -/

namespace Text

/-- A text is cut at its first break in one way only. -/
theorem cut_unique {l m s t : Text} (hl : '\n' ∉ l) (hm : '\n' ∉ m)
    (h : l ++ '\n' :: s = m ++ '\n' :: t) : l = m ∧ s = t := by
  induction l generalizing m with
  | nil =>
    cases m with
    | nil => exact ⟨rfl, (List.cons.inj h).2⟩
    | cons c m => exact absurd ((List.cons.inj h).1 ▸ List.mem_cons_self) hm
  | cons c l ih =>
    cases m with
    | nil => exact absurd ((List.cons.inj h).1 ▸ List.mem_cons_self) hl
    | cons c' m =>
      obtain ⟨rfl, htail⟩ := List.cons.inj h
      obtain ⟨rfl, hst⟩ := ih (fun hc => hl (List.mem_cons_of_mem _ hc))
        (fun hc => hm (List.mem_cons_of_mem _ hc)) htail
      exact ⟨rfl, hst⟩

/-- Lines without breaks can be read off their joined text. -/
theorem joinLines_injective {ls ms : List Text} (hl : ls ≠ []) (hm : ms ≠ [])
    (hls : ∀ l ∈ ls, '\n' ∉ l) (hms : ∀ m ∈ ms, '\n' ∉ m)
    (h : joinLines ls = joinLines ms) : ls = ms := by
  have hbreak : ∀ {l m : Text} {ns : List Text}, '\n' ∉ l → l ≠ m ++ '\n' :: joinLines ns := by
    intro l m ns hn heq
    exact hn (heq ▸ by simp)
  induction ls generalizing ms with
  | nil => exact absurd rfl hl
  | cons l ls ih =>
    cases ms with
    | nil => exact absurd rfl hm
    | cons m ms =>
      have hl' := hls l List.mem_cons_self
      have hm' := hms m List.mem_cons_self
      by_cases hlnil : ls = [] <;> by_cases hmnil : ms = []
      · subst hlnil hmnil
        exact congrArg (fun n => [n]) h
      · subst hlnil
        rw [joinLines_cons m hmnil] at h
        exact absurd h (hbreak hl')
      · subst hmnil
        rw [joinLines_cons l hlnil] at h
        exact absurd h.symm (hbreak hm')
      · rw [joinLines_cons l hlnil, joinLines_cons m hmnil] at h
        obtain ⟨rfl, hrest⟩ := cut_unique hl' hm' h
        rw [ih hlnil hmnil (fun n hn => hls n (List.mem_cons_of_mem _ hn))
          (fun n hn => hms n (List.mem_cons_of_mem _ hn)) hrest]

end Text

namespace Buffer

variable {b c : Buffer}

/-- Settled buffers of one text hold the same lines. -/
theorem Settled.lines_eq (hb : b.Settled) (hc : c.Settled) (hub : b.Unbroken) (huc : c.Unbroken)
    (h : b.text = c.text) : b.lines = c.lines := by
  have htexts : b.lines.map Line.text = c.lines.map Line.text :=
    Text.joinLines_injective (by simpa using b.lines_ne_nil) (by simpa using c.lines_ne_nil)
      (b.unbroken_iff.1 hub) (c.unbroken_iff.1 huc) h
  rw [← Line.scanAll_map_text hb.first hb.next, ← Line.scanAll_map_text hc.first hc.next, htexts]

/-- Cursors see nothing of a buffer but its lines. -/
theorem cursorAt_congr (h : b.lines = c.lines) (n : Nat) : b.cursorAt n = c.cursorAt n := by
  cases b
  cases c
  obtain rfl := h
  rfl

end Buffer

/-! ## Transactions -/

namespace Document

variable {d : Document} {α : Type}

theorem flush_of_clean (h : d.buffer.dirty = []) : d.flush = d := by
  rw [flush, Buffer.flush_of_clean h]

@[simp] theorem flush_flush (d : Document) : d.flush.flush = d.flush := flush_of_clean rfl

theorem transaction_snd (work : Document → Document × α) (d : Document) :
    (d.transaction work).2 = (work d.begun).2 := by
  simp only [transaction, grouped, begun]
  split <;> rfl

/-- A transaction depends on what its work makes of the document it starts in. -/
theorem perform_congr {work work' : Document → Document} (h : work d.begun = work' d.begun) :
    d.perform work = d.perform work' := by
  simp only [begun] at h
  simp only [perform, transaction, grouped, h]

/-- A transaction that does nothing is closed without a trace. -/
theorem Standing.perform_id (h : d.Standing) : d.perform id = d := by
  have hclosed : d.begun.history.endGroup d.selection d.selection = d.history := by
    simp only [begun, History.beginGroup, h.group, History.endGroup, List.reverse_nil]
    rw [← h.group]
  rw [perform_of_idle h.group]
  refine Eq.trans (flush_of_clean h.dirty) ?_
  exact congrArg (fun history => { d with history }) hclosed

/-- A transaction that is the only work of another is that one. -/
theorem Standing.perform_perform (h : d.Standing) {work : Document → Document}
    (hw : (work d.begun).recording = true) :
    (d.perform fun e => e.perform work) = d.perform work := by
  have hinner : d.begun.perform work = (work d.begun).flush := perform_of_busy d.busy_begun hw
  rw [perform_of_idle h.group, perform_of_idle h.group, hinner]
  exact flush_flush { work d.begun with
    recording := d.recording
    history := (work d.begun).history.endGroup d.selection (work d.begun).selection }

end Document

/-! ## Kills that are followed by a splice -/

theorem Outcome.andThen_eq_error {α β : Type} {o : Outcome α} {next : Document → α → Outcome β}
    {r : Refusal} (h : (o.andThen next).2 = .error r) :
    o.2 = .error r ∧ (o.andThen next).1 = o.1 ∨
      ∃ a, o.2 = .ok a ∧ o.andThen next = next o.1 a ∧ (next o.1 a).2 = .error r := by
  obtain ⟨d, a | a⟩ := o
  · obtain rfl := Except.error.inj h
    exact Or.inl ⟨rfl, rfl⟩
  · exact Or.inr ⟨a, rfl, rfl, h⟩

/-- What a kill at an offset can do. It refuses in a string, leaves alone what is not in a list, and
otherwise makes one cut. A cut that takes nothing is made at the offset itself. -/
inductive Kills (b : Buffer) (i : Nat) (kill : Document → Outcome Nat) : Prop
  | refuse (o : Operation) : o ≠ .splice → (∀ e : Document, e.buffer = b → kill e = .refused e o) →
      Kills b i kill
  | stay : (b.cursorAt i).withinString = false →
      (∀ e : Document, e.buffer = b → kill e = .done e i) → Kills b i kill
  | cut (j k n : Nat) (s : Text) : (b.cursorAt i).withinString = false →
      ((b.replace j k s).text = b.text → n = i) →
      (∀ e : Document, e.buffer = b →
        kill e = .done (e.perform fun e => (e.splice j k s).setCaret n) n) → Kills b i kill

namespace Document

variable {d : Document} {i : Nat} {r : Refusal}

theorem kills_killBackward {b : Buffer} (hi : i ≤ b.maxOffset) :
    Kills b i fun e => e.killBackward i := by
  cases hw : (b.cursorAt i).withinString with
  | true =>
    exact .refuse .killBackward (by decide) fun e he => by simp only [killBackward, he, hw, ↓reduceIte]
  | false =>
    cases ho : (b.cursorAt i).backwardList? with
    | none =>
      exact .stay hw fun e he => by
        simp only [killBackward, he, hw, ho, Bool.false_eq_true, ↓reduceIte]
    | some o =>
      refine .cut o.start i o.start [] hw (fun htext => ?_) fun e he => by
        simp only [killBackward, he, hw, ho, Bool.false_eq_true, ↓reduceIte]
      have hstart : o.start ≤ b.maxOffset := ((b.in_cursorAt i).backwardList? ho).start_le
      have hlen := congrArg List.length htext
      rw [Buffer.length_text, Buffer.length_text, Buffer.maxOffset_replace] at hlen
      simp only [Text.normalizeBreaks, List.length_nil] at hlen
      omega

theorem kills_killForward (b : Buffer) (i : Nat) : Kills b i fun e => e.killForward i := by
  cases hw : (b.cursorAt i).withinString with
  | true =>
    exact .refuse .killForward (by decide) fun e he => by simp only [killForward, he, hw, ↓reduceIte]
  | false =>
    cases he : (b.cursorAt i).forwardList? with
    | none =>
      exact .stay hw fun d hd => by
        simp only [killForward, hd, hw, he, Bool.false_eq_true, ↓reduceIte]
    | some e =>
      refine .cut i e.start i (if (b.cursorAt i).inComment i then ['\n'] else []) hw
        (fun _ => rfl) fun d hd => ?_
      simp only [killForward, hd, hw, he, Bool.false_eq_true, ↓reduceIte]

theorem spliceAt_refused (h : (d.spliceAt i).2 = .error r) :
    (d.buffer.cursorAt i).withinString = true ∧ d.spliceAt i = .refused d .splice ∧
      r = ⟨.splice⟩ := by
  cases hw : (d.buffer.cursorAt i).withinString with
  | true =>
    have heq : d.spliceAt i = .refused d .splice := by simp only [spliceAt, hw, ↓reduceIte]
    rw [heq] at h
    exact ⟨rfl, heq, (Except.error.inj h).symm⟩
  | false =>
    simp only [spliceAt, hw, Bool.false_eq_true, ↓reduceIte] at h
    split at h
    · simp [Outcome.done] at h
    · split at h
      · simp [Outcome.done] at h
      · split at h <;> simp [Outcome.done] at h

/-- A replacement that leaves the text as it is leaves the cursors as they are. -/
theorem Standing.cursorAt_replace (hd : d.Standing) {j k : Nat} {s : Text}
    (h : (d.buffer.replace j k s).text = d.buffer.text) (n : Nat) :
    (d.buffer.replace j k s).flush.cursorAt n = d.buffer.cursorAt n := by
  have hsound := hd.sound.replace j k s
  have hlines : (d.buffer.replace j k s).flush.lines = d.buffer.lines :=
    Buffer.Settled.lines_eq hsound.covered.flush hd.settled hsound.flush.unbroken hd.unbroken
      (by rw [Buffer.text_flush, h])
  exact Buffer.cursorAt_congr hlines n

/-- When killing and splicing is refused, either the kill refused and nothing has changed, or the
splice did, and the document is the one that the kill alone makes. -/
theorem Standing.killing_refused {kill : Document → Outcome Nat} (hd : d.Standing)
    (hk : Kills d.buffer d.caret kill)
    (hr : (d.transaction fun e => (kill e).andThen fun e n => e.spliceAt n).2 = .error r) :
    let after := (d.transaction fun e => (kill e).andThen fun e n => e.spliceAt n).1
    r.operation ≠ .splice ∧ after = d ∨
      r.operation = .splice ∧ after = (kill d).1 ∧ after.text ≠ d.text := by
  intro after
  rw [transaction_snd] at hr
  have hafter : after = d.perform fun e => ((kill e).andThen fun e n => e.spliceAt n).1 :=
    transaction_fst _ d
  rcases Outcome.andThen_eq_error hr with ⟨hkill, hsame⟩ | ⟨n, hok, hnext, hsplice⟩
  · cases hk with
    | refuse o ho heq =>
      rw [heq d.begun rfl] at hkill hsame
      obtain rfl := Except.error.inj hkill
      have hnothing : ((kill d.begun).andThen fun e n => e.spliceAt n).1 = id d.begun := by
        rw [heq d.begun rfl, hsame]
        rfl
      exact Or.inl ⟨ho, hafter.trans ((perform_congr hnothing).trans hd.perform_id)⟩
    | stay _ heq =>
      rw [heq d.begun rfl] at hkill
      simp [Outcome.done] at hkill
    | cut j k n s _ _ heq =>
      rw [heq d.begun rfl] at hkill
      simp [Outcome.done] at hkill
  · obtain ⟨hin, hspliceEq, rfl⟩ := spliceAt_refused hsplice
    have hfirst : after = d.perform fun e => (kill e).1 := by
      rw [hafter]
      refine perform_congr ?_
      rw [hnext, hspliceEq]
      rfl
    cases hk with
    | refuse o _ heq =>
      rw [heq d.begun rfl] at hok
      simp [Outcome.refused] at hok
    | stay hw heq =>
      rw [heq d.begun rfl] at hok hin
      obtain rfl := Except.ok.inj hok
      rw [Outcome.done, buffer_begun, hw] at hin
      simp at hin
    | cut j k n' s hw hsame heq =>
      rw [heq d.begun rfl] at hok hin
      obtain rfl := Except.ok.inj hok
      have hdone : after = d.perform fun e => (e.splice j k s).setCaret n' := by
        rw [hfirst]
        refine Eq.trans (perform_congr ?_) (hd.perform_perform ?_)
        · rw [heq d.begun rfl]
          rfl
        · exact (d.begun.recording_change j k s none none).trans rfl
      have hbuffer : after.buffer = (d.buffer.replace j k s).flush := by
        rw [hdone, buffer_perform, buffer_setCaret, buffer_splice, buffer_begun]
      refine Or.inr ⟨rfl, by rw [hdone, heq d rfl]; rfl, fun htext => ?_⟩
      simp only [text, hbuffer, Buffer.text_flush] at htext
      obtain rfl := hsame htext
      simp only [Outcome.done] at hin
      rw [buffer_perform, buffer_setCaret, buffer_splice, buffer_begun, buffer_begun,
        hd.cursorAt_replace htext, hw] at hin
      simp at hin

theorem wrap_refused {opener closer : Text} (h : (d.wrap opener closer).2 = .error r) :
    (d.wrap opener closer).1 = d := by
  simp only [wrap] at h ⊢
  split at h
  · rename_i hw
    simp only [hw, ↓reduceIte, Outcome.refused]
  · simp [Outcome.done] at h

theorem join_refused (h : d.join.2 = .error r) : d.join.1 = d := by
  simp only [join] at h ⊢
  split at h
  · rename_i hw
    simp only [hw, ↓reduceIte, Outcome.refused]
  · split at h <;> simp [Outcome.done] at h

theorem killBackward_refused (h : (d.killBackward i).2 = .error r) : (d.killBackward i).1 = d := by
  rcases d.killBackward_cases i with ⟨-, heq⟩ | ⟨-, -, heq⟩ | ⟨o, -, -, -, hok⟩
  · rw [heq]
  · rw [heq]
  · rw [hok] at h
    simp at h

theorem killForward_refused (h : (d.killForward i).2 = .error r) : (d.killForward i).1 = d := by
  rcases d.killForward_cases i with ⟨-, heq⟩ | ⟨-, -, heq⟩ | ⟨e, -, -, -, hok⟩
  · rw [heq]
  · rw [heq]
  · rw [hok] at h
    simp at h

end Document

/-! ## Commands -/

namespace Reply

theorem ofUnit_eq_refused {x : Except Refusal Unit} {r : Refusal} (h : ofUnit x = .refused r) :
    x = .error r := by
  cases x with
  | ok _ => simp [ofUnit] at h
  | error q => exact congrArg Except.error (Reply.refused.inj h)

theorem ofOffset_eq_refused {x : Except Refusal Nat} {r : Refusal} (h : ofOffset x = .refused r) :
    x = .error r := by
  cases x with
  | ok _ => simp [ofOffset] at h
  | error q => exact congrArg Except.error (Reply.refused.inj h)

end Reply

namespace Command

variable {c : Command} {d : Document} {r : Refusal}

/-- The kill that a command starts with before it splices. -/
def kill? : Command → Option Command
  | .spliceKillingBackward => some (.killBackward none)
  | .spliceKillingForward => some (.killForward none)
  | _ => none

theorem fst_run_of_refused (hc : c.kill? = none) (h : (c.run d).2 = .refused r) :
    (c.run d).1 = d := by
  cases c with
  | wrap opener closer => exact Document.wrap_refused (Reply.ofUnit_eq_refused h)
  | join => exact Document.join_refused (Reply.ofUnit_eq_refused h)
  | splice =>
    exact congrArg Prod.fst (Document.spliceAt_refused (Reply.ofUnit_eq_refused h)).2.1
  | spliceAt offset =>
    exact congrArg Prod.fst (Document.spliceAt_refused (Reply.ofUnit_eq_refused h)).2.1
  | killBackward offset => exact Document.killBackward_refused (Reply.ofOffset_eq_refused h)
  | killForward offset => exact Document.killForward_refused (Reply.ofOffset_eq_refused h)
  | spliceKillingBackward => simp [kill?] at hc
  | spliceKillingForward => simp [kill?] at hc
  | _ => simp [run] at h

theorem run_of_kill_refused {k : Command} (hd : d.Standing) (hk : c.kill? = some k)
    (h : (c.run d).2 = .refused r) :
    r.operation ≠ .splice ∧ (c.run d).1 = d ∨
      r.operation = .splice ∧ (c.run d).1 = k.apply d ∧ (c.run d).1.text ≠ d.text := by
  cases c with
  | spliceKillingBackward =>
    obtain rfl := Option.some.inj hk
    exact hd.killing_refused (Document.kills_killBackward hd.fits.2) (Reply.ofUnit_eq_refused h)
  | spliceKillingForward =>
    obtain rfl := Option.some.inj hk
    exact hd.killing_refused (Document.kills_killForward _ _) (Reply.ofUnit_eq_refused h)
  | _ => simp [kill?] at hk

end Command

/-- After any commands, a command that refuses leaves the whole document as it was, unless it has
killed before it came to splice. Then the document is the one that the kill alone makes, and its
text is another one. -/
theorem run_eq_self_of_refused {d₀ : Document} (h : d₀.Fresh fun _ => True) (cs : List Command)
    (c : Command) (r : Refusal) :
    let d := Command.runAll cs d₀
    (c.run d).2 = .refused r →
      (c.kill? = none ∨ r.operation ≠ .splice → (c.run d).1 = d) ∧
      (∀ k, c.kill? = some k → r.operation = .splice →
        (c.run d).1 = k.apply d ∧ (c.run d).1.text ≠ d.text) := by
  intro d hr
  have hd : d.Standing := Command.standing_runAll h.standing cs
  cases hk : c.kill? with
  | none => exact ⟨fun _ => Command.fst_run_of_refused hk hr, by simp⟩
  | some k =>
    rcases Command.run_of_kill_refused hd hk hr with ⟨hne, hsame⟩ | ⟨heq, hrun⟩
    · exact ⟨fun _ => hsame, fun _ _ heq => absurd heq hne⟩
    · refine ⟨fun hor => ?_, fun k' hk' _ => Option.some.inj hk' ▸ hrun⟩
      simp [heq] at hor

/-- Killing backwards from behind the semicolon of `(a ;"b` takes the semicolon away, and what was a
comment becomes a string. -/
theorem run_eq_self_of_refused_comment :
    let d := Command.runAll [.setCaret 4]
      (.ofText ['(', 'a', ' ', ';', '"', 'b', '\n', ' ', 'c', ')'])
    (Command.spliceKillingBackward.run d).2 = .refused ⟨.splice⟩ ∧
      (Command.spliceKillingBackward.run d).1 = (Command.killBackward none).apply d := by
  have hr : (Command.spliceKillingBackward.run (Command.runAll [.setCaret 4]
      (.ofText ['(', 'a', ' ', ';', '"', 'b', '\n', ' ', 'c', ')']))).2 =
      .refused ⟨.splice⟩ := by decide +kernel
  have h := run_eq_self_of_refused
    (.ofText trivial : Document.Fresh (fun _ => True)
      (.ofText ['(', 'a', ' ', ';', '"', 'b', '\n', ' ', 'c', ')']))
    [.setCaret 4] .spliceKillingBackward ⟨.splice⟩ hr
  exact ⟨hr, (h.2 _ rfl rfl).1⟩

/-- There the command is refused, and the text, the selection and the history have changed. -/
theorem changed_of_refused_killing :
    let d := Command.runAll [.setCaret 4]
      (.ofText ['(', 'a', ' ', ';', '"', 'b', '\n', ' ', 'c', ')'])
    let e := (Command.spliceKillingBackward.run d).1
    (Command.spliceKillingBackward.run d).2 = .refused ⟨.splice⟩ ∧
      d.text = ['(', 'a', ' ', ';', '"', 'b', '\n', ' ', 'c', ')'] ∧
      e.text = ['(', '"', 'b', '\n', ' ', 'c', ')'] ∧
      d.selection = .point 4 ∧ e.selection = .point 1 ∧
      d.history.undos.length = 0 ∧ e.history.undos.length = 1 := by
  decide +kernel

end StructEdit
