import StructEdit.Proofs.Balance.Splices

/-!
# Killing in balanced text

Killing removes what stands in a list on one side of the caret. A splice may follow. When the kill
alone is not accounted for, it has left brackets without partners, and taking out a pair of
delimiters does not mend that: the balance of opening and closing brackets stays off. Only behind a
caret in a comment or a string, where a kill makes code of what was none, may the two together
come out right.
-/
namespace StructEdit

namespace Buffer

variable {b : Buffer} {i : Nat} {o e : Cursor}

/-! ## Killing -/

/-- In code, no list is opened between the place behind the opening delimiter and the caret.
Elsewhere what is left of the comment or string can be read as code. -/
def KeepsKillBackward (b : Buffer) (i : Nat) : Prop :=
  let c := b.cursorAt i
  c.withinString = true ∨
    match c.backwardList? with
    | none => True
    | some o =>
      if b.text.placeAt i = .code then b.text.opened o.start i = []
      else Text.Closes .code (b.text.listsAt o.start) (b.text.drop i)

/-- In code and in comments, no list is closed between the caret and the closing delimiter. In a
string the text from there on can be read as what follows the caret. -/
def KeepsKillForward (b : Buffer) (i : Nat) : Prop :=
  let c := b.cursorAt i
  c.withinString = true ∨
    match c.forwardList? with
    | none => True
    | some e =>
      if (b.text.placeAt i).isFinal then b.text.closed i e.start = []
      else Text.Closes (b.text.placeAt i) (b.text.listsAt i) (b.text.drop e.start)

/-- The caret is in a comment or a string, and the rest, which is read as code then, comes to the
end of the list around the caret and closes the lists around that one. -/
def MendsKill (b : Buffer) (i : Nat) : Prop :=
  b.text.placeAt i ≠ .code ∧ ∃ o ∈ (b.cursorAt i).backwardList?, b.Mends o i

instance (b : Buffer) (i : Nat) : Decidable (b.MendsKill i) :=
  inferInstanceAs (Decidable (_ ∧ _))

/-- The text after the kill is balanced as the condition says, and where it is not, brackets in code
have no partners. -/
theorem Nested.killBackward_iff (hb : b.Nested) (hi : i ≤ b.maxOffset)
    (ho : (b.cursorAt i).backwardList? = some o) :
    (Text.Balanced (b.text.take o.start ++ b.text.drop i) ↔
      if b.text.placeAt i = .code then b.text.opened o.start i = []
      else Text.Closes .code (b.text.listsAt o.start) (b.text.drop i)) ∧
    (b.text.placeAt i = .code → b.text.opened o.start i ≠ [] →
      surplus (Place.code.fences (b.text.take o.start ++ b.text.drop i)) ≠ 0) := by
  have hbal := hb.balanced
  obtain ⟨x, -, -, hfence⟩ := ((b.in_cursorAt i).backwardList? ho).opener hb.phase
    (Cursor.backwardList?_eq_some ho).2
  obtain ⟨hle, m, hm⟩ := hb.caret_backwardList? hi ho
  obtain ⟨hopened, hlists⟩ := hbal.lists_opened hle hm
  have hmid : Piece (b.text.placeAt o.start) [] [] .code := by
    rw [hfence.stop]
    exact .nil _
  rw [hopened]
  constructor
  · rw [← List.append_nil (b.text.take o.start)]
    split
    · rename_i hcode
      rw [hbal.splice_iff hmid (Or.inl hcode.symm), hlists, nest_nil, Option.some.injEq]
      simp
    · rw [hbal.splice_iff_closes hmid]
      simp
  · intro hcode hne hzero
    have htake := surplus_of_nest (hbal.nest_take o.start)
    have hdrop := surplus_of_nest (hbal.closes_drop i).1
    rw [hcode, hlists, List.length_append] at hdrop
    rw [Place.fences_append, (Text.piece_take _ _).after, hfence.stop, surplus_append] at hzero
    have hpos := List.length_pos_iff.2 hne
    simp only [List.length_nil] at htake hdrop
    omega

theorem Nested.cut_killBackward (hb : b.Nested) (hi : i ≤ b.maxOffset)
    (ho : (b.cursorAt i).backwardList? = some o) :
    Cut b o i (b.replace o.start i []).flush where
  nested := hb
  settled := (hb.settled.covered.replace o.start i []).flush
  unbroken := (hb.unbroken.replace o.start i []).flush
  mem := (b.in_cursorAt i).backwardList? ho
  opening := (Cursor.backwardList?_eq_some ho).2
  text := by
    rw [text_flush, text_replace_of_le (hb.caret_backwardList? hi ho).1 (by simp), List.append_nil]

/-- A splice behind the kill leaves balanced text only if the kill has done so, or if it mends what
the kill has left. -/
theorem Nested.mendsKill_of_balanced (hb : b.Nested) (hi : i ≤ b.maxOffset)
    (ho : (b.cursorAt i).backwardList? = some o)
    (hbal : ((b.replace o.start i []).flush.spliced o.start).Balanced) :
    (b.replace o.start i []).flush.text.Balanced ∨ b.MendsKill i := by
  have hcut := hb.cut_killBackward hi ho
  obtain ⟨hbalanced, hsurplus⟩ := hb.killBackward_iff hi ho
  by_cases hcode : b.text.placeAt i = .code
  · rw [if_pos hcode, ← hcut.text] at hbalanced
    rw [← hcut.text] at hsurplus
    refine Or.inl (hbalanced.2 (Decidable.byContradiction fun hne => hsurplus hcode hne ?_))
    rw [← surplus_spliced (phase_placed hcut.settled hcut.unbroken) o.start, hbal.surplus_eq]
  · exact (hcut.mends_of_balanced hbal).imp_right fun hm => ⟨hcode, o, ho, hm⟩

/-- A forward kill ends the comment that the caret stands in. -/
def killGap (b : Buffer) (i : Nat) : Text := if (b.cursorAt i).inComment i then ['\n'] else []

theorem normalizeBreaks_killGap (b : Buffer) (i : Nat) :
    Text.normalizeBreaks (b.killGap i) = b.killGap i := by
  unfold killGap
  split <;> rfl

theorem Nested.killForward_iff (hb : b.Nested) (hi : i ≤ b.maxOffset)
    (he : (b.cursorAt i).forwardList? = some e) :
    (Text.Balanced (b.text.take i ++ b.killGap i ++ b.text.drop e.start) ↔
      if (b.text.placeAt i).isFinal then b.text.closed i e.start = []
      else Text.Closes (b.text.placeAt i) (b.text.listsAt i) (b.text.drop e.start)) ∧
    ((b.text.placeAt i).isFinal = true → b.text.closed i e.start ≠ [] →
      surplus (Place.code.fences (b.text.take i ++ b.killGap i ++ b.text.drop e.start)) ≠ 0) := by
  have hbal := hb.balanced
  obtain ⟨x, -, -, hfence⟩ := ((b.in_cursorAt i).forwardList? he).closing hb.phase
    (Cursor.forwardList?_eq_some he).2
  obtain ⟨hle, l, hl⟩ := hb.caret_forwardList? hi he
  obtain ⟨hclosed, hlists⟩ := hbal.lists_closed hle hl
  have hcomment := hb.inComment_iff hi
  have hmid : Piece (b.text.placeAt i) (b.killGap i) []
      (if (b.text.placeAt i).isFinal then .code else b.text.placeAt i) := by
    unfold killGap
    by_cases hc : (b.cursorAt i).inComment i = true
    · rw [if_pos hc, hcomment.1 hc]
      exact ⟨rfl, rfl⟩
    · have hne : b.text.placeAt i ≠ .comment := fun h => hc (hcomment.2 h)
      rw [if_neg hc]
      generalize b.text.placeAt i = p at hne
      cases p <;> first | exact ⟨rfl, rfl⟩ | exact absurd rfl hne
  rw [hclosed]
  constructor
  · split
    · rename_i hfinal
      rw [if_pos hfinal] at hmid
      rw [hbal.splice_iff hmid (Or.inl hfence.start.symm), hlists, nest_nil, Option.some.injEq]
      simp
    · rename_i hfinal
      rw [if_neg hfinal] at hmid
      rw [hbal.splice_iff_closes hmid]
      simp
  · intro hfinal hne hzero
    have htake := surplus_of_nest (hbal.nest_take i)
    have hdrop := surplus_of_nest (hbal.closes_drop e.start).1
    rw [if_pos hfinal] at hmid
    rw [hfence.start] at hdrop
    rw [List.append_assoc, Place.fences_append, (Text.piece_take _ _).after, Place.fences_append,
      hmid.fences, hmid.after, List.nil_append, surplus_append] at hzero
    have hpos := List.length_pos_iff.2 hne
    rw [hlists, List.length_append] at htake
    simp only [List.length_nil] at htake hdrop
    omega

/-- A closing bracket that comes to stand in a string belongs to a token of the string. -/
theorem withinString_of_closer (hp : Phase .code b.placed) {c : Char} {rest : Text}
    (hplace : (b.text.placeAt i).isFinal = false) (hdrop : b.text.drop i = c :: rest)
    (hc : [c] ∈ Bracket.closers) : (b.cursorAt i).withinString = true := by
  have hi : i ≤ b.maxOffset := by
    have := congrArg List.length hdrop
    rw [List.length_drop, b.length_text, List.length_cons] at this
    omega
  suffices hstring : (b.cursorAt i).kind.isString = true by rw [Cursor.withinString, hstring]; rfl
  rcases place_cursorAt hp hi with heq | ⟨-, hholds⟩
  · obtain ⟨hsuits, -, -⟩ := piece_cursorAt hp hi
    obtain ⟨d, raw, hraw⟩ := List.exists_cons_of_ne_nil
      (List.length_pos_iff.1 (b.in_cursorAt i).raw_length_pos)
    have hspell := (b.in_cursorAt i).parts.drop_text
    rw [heq, hdrop, List.map_cons, spell_cons] at hspell
    have hfirst : c :: (rest ++ ['\n']) = (b.cursorAt i).raw ++ _ := hspell
    rw [hraw] at hfirst
    obtain ⟨rfl, -⟩ := List.cons.inj hfirst
    rw [heq, hraw] at hsuits
    exact hsuits.isString_of_quiet hplace
      ((quiet_of_delimiter (List.mem_append_right _ hc)).2 c (by simp))
  · cases hq : b.text.placeAt i with
    | code | comment => simp [hq, Place.isFinal] at hplace
    | string | escape => rwa [hq] at hholds

/-- In a string the splice behind the kill does nothing. -/
theorem Nested.spliced_killForward (hb : b.Nested) (hi : i ≤ b.maxOffset)
    (he : (b.cursorAt i).forwardList? = some e) (hplace : (b.text.placeAt i).isFinal = false)
    {k : Buffer} (hp : Phase .code k.placed)
    (htext : k.text = b.text.take i ++ b.text.drop e.start) : k.spliced i = k.text := by
  have hein := (b.in_cursorAt i).forwardList? he
  have hk := (Cursor.forwardList?_eq_some he).2
  have hne : e.kind ≠ .lineEnd := by simp [hk]
  obtain ⟨x, -, hcloser, -⟩ := hein.closing hb.phase hk
  obtain ⟨c, hraw⟩ : ∃ c, e.raw = [c] := List.length_eq_one_iff.1 (hein.length_raw_closing hk)
  have hrest : b.text.drop e.start = c :: b.text.drop e.stop := by
    have hle : e.start ≤ e.stop := Nat.le.intro (hein.stop_eq hne).symm
    rw [← Text.slice_append_drop b.text hle, hein.slice_raw hne, hraw]
    rfl
  have hlen : (b.text.take i).length = i := List.length_take_of_le (by rwa [b.length_text])
  have hplace' : k.text.placeAt i = b.text.placeAt i := by
    rw [Text.placeAt, Text.placeAt, htext, List.take_left' hlen]
  have hdrop : k.text.drop i = c :: b.text.drop e.stop := by
    rw [htext, List.drop_left' hlen, hrest]
  have hw := withinString_of_closer hp (hplace'.symm ▸ hplace) hdrop (hraw ▸ hcloser)
  rw [spliced, enclosing?, if_pos hw]

/-- A splice behind the kill leaves balanced text only if the kill has done so. -/
theorem Nested.killForward_of_balanced (hb : b.Nested) (hi : i ≤ b.maxOffset)
    (he : (b.cursorAt i).forwardList? = some e) {k : Buffer} (hp : Phase .code k.placed)
    (htext : k.text = b.text.take i ++ b.killGap i ++ b.text.drop e.start)
    (hbal : (k.spliced i).Balanced) : k.text.Balanced := by
  obtain ⟨hbalanced, hsurplus⟩ := hb.killForward_iff hi he
  rw [← htext] at hbalanced hsurplus
  cases hfinal : (b.text.placeAt i).isFinal with
  | true =>
    rw [if_pos hfinal] at hbalanced
    refine hbalanced.2 (Decidable.byContradiction fun hne => hsurplus hfinal hne ?_)
    rw [← surplus_spliced hp i, hbal.surplus_eq]
  | false =>
    have hcomment : (b.cursorAt i).inComment i = false := by
      refine Bool.eq_false_iff.2 fun hc => ?_
      rw [(hb.inComment_iff hi).1 hc] at hfinal
      cases hfinal
    rw [killGap, hcomment, if_neg Bool.false_ne_true, List.append_nil] at htext
    rwa [hb.spliced_killForward hi he hfinal hp htext] at hbal

end Buffer

namespace Document

variable {d : Document} {i : Nat}

/-! ## Kills of documents -/

/-- A kill refuses in a string, does nothing outside of a list, and otherwise cuts. -/
theorem killBackward_cases (d : Document) (i : Nat) :
    (d.buffer.cursorAt i).withinString = true ∧
        d.killBackward i = (d, .error ⟨.killBackward⟩) ∨
      (d.buffer.cursorAt i).withinString = false ∧ (d.buffer.cursorAt i).backwardList? = none ∧
        d.killBackward i = (d, .ok i) ∨
      ∃ o, (d.buffer.cursorAt i).withinString = false ∧
        (d.buffer.cursorAt i).backwardList? = some o ∧
        (d.killBackward i).1.buffer = (d.buffer.replace o.start i []).flush ∧
        (d.killBackward i).2 = .ok o.start := by
  simp only [killBackward]
  cases hw : (d.buffer.cursorAt i).withinString with
  | true => exact Or.inl ⟨rfl, rfl⟩
  | false =>
    cases ho : (d.buffer.cursorAt i).backwardList? with
    | none => exact Or.inr (Or.inl ⟨rfl, rfl, rfl⟩)
    | some o =>
      refine Or.inr (Or.inr ⟨o, rfl, rfl, ?_, rfl⟩)
      simp only [Bool.false_eq_true, ↓reduceIte, Outcome.done]
      rw [buffer_perform, buffer_setCaret, buffer_splice, buffer_begun]

theorem killForward_cases (d : Document) (i : Nat) :
    (d.buffer.cursorAt i).withinString = true ∧
        d.killForward i = (d, .error ⟨.killForward⟩) ∨
      (d.buffer.cursorAt i).withinString = false ∧ (d.buffer.cursorAt i).forwardList? = none ∧
        d.killForward i = (d, .ok i) ∨
      ∃ e, (d.buffer.cursorAt i).withinString = false ∧
        (d.buffer.cursorAt i).forwardList? = some e ∧
        (d.killForward i).1.buffer = (d.buffer.replace i e.start (d.buffer.killGap i)).flush ∧
        (d.killForward i).2 = .ok i := by
  simp only [killForward]
  cases hw : (d.buffer.cursorAt i).withinString with
  | true => exact Or.inl ⟨rfl, rfl⟩
  | false =>
    cases he : (d.buffer.cursorAt i).forwardList? with
    | none => exact Or.inr (Or.inl ⟨rfl, rfl, rfl⟩)
    | some e =>
      refine Or.inr (Or.inr ⟨e, rfl, rfl, ?_, rfl⟩)
      simp only [Bool.false_eq_true, ↓reduceIte, Outcome.done]
      rw [buffer_perform, buffer_setCaret, buffer_splice, buffer_begun, Buffer.killGap]

/-- What a kill leaves, with the condition under which it is balanced, and another one for a splice
that mends what the kill has left. -/
structure Killed (keeps mends : Prop) (o : Outcome Nat) : Prop where
  settled : o.1.buffer.Settled
  unbroken : o.1.buffer.Unbroken
  refused : ∀ r, o.2 = .error r → keeps
  balanced : o.1.buffer.text.Balanced ↔ keeps
  mended : ∀ offset, o.2 = .ok offset → mends → (o.1.buffer.spliced offset).Balanced
  spliced : ∀ offset, o.2 = .ok offset → (o.1.buffer.spliced offset).Balanced → keeps ∨ mends

theorem Killed.of_same {keeps mends : Prop} {o : Outcome Nat} (hb : d.buffer.Nested) (hk : keeps)
    (ho : o.1 = d) (hm : ∀ offset, o.2 = .ok offset → ¬mends) : Killed keeps mends o := by
  obtain ⟨e, r⟩ := o
  obtain rfl : e = d := ho
  exact ⟨hb.settled, hb.unbroken, fun _ _ => hk, iff_of_true hb.balanced hk,
    fun offset hr hmends => absurd hmends (hm offset hr), fun _ _ _ => Or.inl hk⟩

theorem Killed.of_flush {keeps mends : Prop} {o : Outcome Nat} {k : Buffer} {n : Nat}
    (hk : o.1.buffer = k.flush) (hok : o.2 = .ok n) (hc : k.Covered) (hu : k.Unbroken)
    (hbalanced : k.flush.text.Balanced ↔ keeps) (hmended : mends → (k.flush.spliced n).Balanced)
    (hspliced : (k.flush.spliced n).Balanced → k.flush.text.Balanced ∨ mends) :
    Killed keeps mends o where
  settled := hk ▸ hc.flush
  unbroken := hk ▸ hu.flush
  refused r hr := by
    rw [hok] at hr
    cases hr
  balanced := by rw [hk, hbalanced]
  mended offset hr := by
    rw [hok] at hr
    obtain rfl := Except.ok.inj hr
    rw [hk]
    exact hmended
  spliced offset hr := by
    rw [hok] at hr
    obtain rfl := Except.ok.inj hr
    rw [hk]
    exact fun hbal => (hspliced hbal).imp_left hbalanced.1

theorem killed_killBackward (hb : d.buffer.Nested) (hf : d.Fits) :
    Killed (d.buffer.KeepsKillBackward d.caret) (d.buffer.MendsKill d.caret)
      (d.killBackward d.caret) := by
  have hi : d.caret ≤ d.buffer.maxOffset := hf.2
  rcases d.killBackward_cases d.caret with ⟨hw, heq⟩ | ⟨hw, ho, heq⟩ | ⟨o, hw, ho, hbuffer, hok⟩
  · exact .of_same hb (Or.inl hw) (by rw [heq]) fun n hn => by simp [heq] at hn
  · refine .of_same hb (Or.inr (by rw [ho]; trivial)) (by rw [heq]) fun _ _ hm => ?_
    obtain ⟨-, o, ho', -⟩ := hm
    rw [ho] at ho'
    cases ho'
  · have hkeeps : d.buffer.KeepsKillBackward d.caret ↔
        if d.buffer.text.placeAt d.caret = .code then d.buffer.text.opened o.start d.caret = []
        else Text.Closes .code (d.buffer.text.listsAt o.start) (d.buffer.text.drop d.caret) := by
      simp only [Buffer.KeepsKillBackward, hw, ho, Bool.false_eq_true, false_or]
    have hcut := hb.cut_killBackward hi ho
    have hbalanced := (hb.killBackward_iff hi ho).1
    rw [← hcut.text] at hbalanced
    refine .of_flush hbuffer hok (hb.settled.covered.replace _ _ _) (hb.unbroken.replace _ _ _)
      (hbalanced.trans hkeeps.symm) ?_ (hb.mendsKill_of_balanced hi ho)
    rintro ⟨-, o', ho', hm⟩
    rw [ho] at ho'
    obtain rfl := Option.some.inj ho'
    exact hcut.balanced_spliced hm

theorem killed_killForward (hb : d.buffer.Nested) (hf : d.Fits) :
    Killed (d.buffer.KeepsKillForward d.caret) False (d.killForward d.caret) := by
  have hi : d.caret ≤ d.buffer.maxOffset := hf.2
  rcases d.killForward_cases d.caret with ⟨hw, heq⟩ | ⟨hw, he, heq⟩ | ⟨e, hw, he, hbuffer, hok⟩
  · exact .of_same hb (Or.inl hw) (by rw [heq]) fun _ _ => not_false
  · exact .of_same hb (Or.inr (by rw [he]; trivial)) (by rw [heq]) fun _ _ => not_false
  · have hkeeps : d.buffer.KeepsKillForward d.caret ↔
        if (d.buffer.text.placeAt d.caret).isFinal then
          d.buffer.text.closed d.caret e.start = []
        else Text.Closes (d.buffer.text.placeAt d.caret) (d.buffer.text.listsAt d.caret)
          (d.buffer.text.drop e.start) := by
      simp only [Buffer.KeepsKillForward, hw, he, Bool.false_eq_true, false_or]
    have hle := (hb.caret_forwardList? hi he).1
    have htext := d.buffer.text_replace_of_clean d.caret e.start
      (d.buffer.normalizeBreaks_killGap d.caret)
    rw [Nat.min_eq_left hle, Nat.max_eq_right hle, ← Buffer.text_flush] at htext
    have hbalanced := (hb.killForward_iff hi he).1
    rw [← htext] at hbalanced
    have hcovered := hb.settled.covered.replace d.caret e.start (d.buffer.killGap d.caret)
    have hunbroken := hb.unbroken.replace d.caret e.start (d.buffer.killGap d.caret)
    exact .of_flush hbuffer hok hcovered hunbroken (hbalanced.trans hkeeps.symm) False.elim
      fun hbal => Or.inl (hb.killForward_of_balanced hi he
        (Buffer.phase_placed hcovered.flush hunbroken.flush) htext hbal)

theorem balanced_killBackward_iff (hb : d.buffer.Nested) (hf : d.Fits) :
    (d.killBackward d.caret).1.buffer.text.Balanced ↔ d.buffer.KeepsKillBackward d.caret :=
  (killed_killBackward hb hf).balanced

theorem balanced_killForward_iff (hb : d.buffer.Nested) (hf : d.Fits) :
    (d.killForward d.caret).1.buffer.text.Balanced ↔ d.buffer.KeepsKillForward d.caret :=
  (killed_killForward hb hf).balanced

/-! ## Killing and splicing -/

/-- The kill leaves balanced text, in which the splice does so too. -/
def KeepsKilling (keeps : Prop) (o : Outcome Nat) : Prop :=
  match o.2 with
  | .error _ => True
  | .ok offset => keeps ∧ o.1.buffer.KeepsSplice offset

theorem Killed.splice_iff {keeps mends : Prop} (kill : Document → Outcome Nat)
    (h : Killed keeps mends (kill d))
    (hkill : ∀ e : Document, e.buffer = d.buffer →
      (kill e).1.buffer = (kill d).1.buffer ∧ (kill e).2 = (kill d).2) :
    (d.transaction fun e => (kill e).andThen fun e offset =>
      e.spliceAt offset).1.buffer.text.Balanced ↔ KeepsKilling keeps (kill d) ∨ mends := by
  obtain ⟨hbuffer, hresult⟩ := hkill d.begun rfl
  rw [transaction_fst, buffer_perform, Buffer.text_flush]
  unfold KeepsKilling
  cases hr : (kill d).2 with
  | error r =>
    have hdone : (Outcome.andThen (kill d.begun) fun e offset => e.spliceAt offset).1.buffer =
        (kill d).1.buffer := by
      rw [← hbuffer]
      rw [hr] at hresult
      unfold Outcome.andThen
      split
      · rename_i heq
        rw [heq] at hresult
        simp at hresult
      · rename_i heq
        rw [heq]
    rw [hdone, h.balanced]
    exact iff_of_true (h.refused r hr) (Or.inl trivial)
  | ok offset =>
    have hdone : (Outcome.andThen (kill d.begun) fun e offset =>
        e.spliceAt offset).1.buffer.text = (kill d).1.buffer.spliced offset := by
      rw [← hbuffer]
      rw [hr] at hresult
      unfold Outcome.andThen
      split
      · rename_i e n heq
        rw [heq] at hresult ⊢
        obtain rfl := Except.ok.inj hresult
        exact text_spliceAt e n
      · rename_i heq
        rw [heq] at hresult
        simp at hresult
    rw [hdone]
    have hnested : keeps → (kill d).1.buffer.Nested := fun hk =>
      ⟨h.settled, h.unbroken, h.balanced.2 hk⟩
    constructor
    · intro hbal
      exact (h.spliced offset hr hbal).imp_left fun hk =>
        ⟨hk, ((hnested hk).spliced_iff offset).1 hbal⟩
    · rintro (⟨hk, hsplice⟩ | hm)
      · exact ((hnested hk).spliced_iff offset).2 hsplice
      · exact h.mended offset hr hm

theorem killBackward_congr {e : Document} (h : e.buffer = d.buffer) (i : Nat) :
    (e.killBackward i).1.buffer = (d.killBackward i).1.buffer ∧
      (e.killBackward i).2 = (d.killBackward i).2 := by
  simp only [killBackward, h]
  split
  · exact ⟨h, rfl⟩
  · split
    · exact ⟨h, rfl⟩
    · simp only [Outcome.done, buffer_perform, buffer_setCaret, buffer_splice, buffer_begun, h,
        and_self]

theorem killForward_congr {e : Document} (h : e.buffer = d.buffer) (i : Nat) :
    (e.killForward i).1.buffer = (d.killForward i).1.buffer ∧
      (e.killForward i).2 = (d.killForward i).2 := by
  simp only [killForward, h]
  split
  · exact ⟨h, rfl⟩
  · split
    · exact ⟨h, rfl⟩
    · simp only [Outcome.done, buffer_perform, buffer_setCaret, buffer_splice, buffer_begun, h,
        and_self]

theorem balanced_spliceKillingBackward_iff (hb : d.buffer.Nested) (hf : d.Fits) :
    d.spliceKillingBackward.1.buffer.text.Balanced ↔
      KeepsKilling (d.buffer.KeepsKillBackward d.caret) (d.killBackward d.caret) ∨
        d.buffer.MendsKill d.caret :=
  (killed_killBackward hb hf).splice_iff (fun e => e.killBackward d.caret)
    fun _ he => killBackward_congr he d.caret

/-- Behind the semicolon of `[(;'])[(` and `)]`, where the mark takes a `]` along. -/
example :
    (Buffer.ofText "[(;'])[(\n)]".toList).flush.MendsKill 3 := by
  decide +kernel

theorem balanced_spliceKillingForward_iff (hb : d.buffer.Nested) (hf : d.Fits) :
    d.spliceKillingForward.1.buffer.text.Balanced ↔
      KeepsKilling (d.buffer.KeepsKillForward d.caret) (d.killForward d.caret) :=
  ((killed_killForward hb hf).splice_iff (fun e => e.killForward d.caret)
    fun _ he => killForward_congr he d.caret).trans (or_iff_left not_false)

end Document
end StructEdit
