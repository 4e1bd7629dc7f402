import StructEdit.Proofs.Balance.Walks

/-!
# Cursors in the text

What motions pass, as fences between offsets of the text, and what is known at the caret, which
may stand inside a token.
-/
namespace StructEdit

structure Buffer.Nested (b : Buffer) : Prop where
  settled : b.Settled
  unbroken : b.Unbroken
  balanced : b.text.Balanced

/-- The last token of a line is its end. -/
theorem Scanned.eq_lineEnd {mode last : Mode} {column : Nat} {s : Text} {ts : List Token}
    (h : Scanned mode column s ts last) :
    ∀ t, ts.getLast? = some t → t = .lineEnd (column + s.length) last := by
  induction h with
  | nil => simp
  | @cons mode last column raw rest kind ts _ _ hscan ih =>
    have hne : ts ≠ [] := by
      cases hscan <;> simp
    intro t ht
    rw [List.getLast?_cons_of_ne_nil hne] at ht
    rw [ih t ht, List.length_append, Nat.add_assoc]

theorem Scanned.kind_last {mode last : Mode} {column : Nat} {s : Text} {ts : List Token}
    (h : Scanned mode column s ts last) (t : Token) (ht : ts.getLast? = some t) :
    t.kind = .lineEnd := by
  rw [h.eq_lineEnd t ht, Token.kind_lineEnd]

theorem exists_lineEnd_last (ls : List Line) :
    ∀ t, (ls.flatMap Line.tokens).getLast? = some t → ∃ offset mode, t = .lineEnd offset mode := by
  induction ls with
  | nil => simp
  | cons l ls ih =>
    intro t ht
    rw [List.flatMap_cons, List.getLast?_append, Option.or_eq_some_iff] at ht
    rcases ht with ht | ⟨-, ht⟩
    · exact ih t ht
    · exact ⟨_, _, l.scannedTokens.eq_lineEnd t ht⟩

namespace Buffer.Nested

variable {b : Buffer} (hb : b.Nested)
include hb

theorem phase : Phase .code b.placed := phase_placed hb.settled hb.unbroken

theorem nest_placed : nest [] (fencesOf b.placed) = some [] := by
  rw [← hb.phase.fences, rawText_placed, Place.fences_append]
  have hbreak : (Place.code.after b.text).fences ['\n'] = [] := by
    cases Place.code.after b.text <;> rfl
  rw [hbreak, List.append_nil]
  exact hb.balanced.1

theorem along_code : Place.code.along b.placed = .code := by
  rw [← hb.phase.after, rawText_placed, Place.after_append]
  have hfinal := hb.balanced.2
  cases hp : Place.code.after b.text <;> rw [hp] at hfinal
  · rfl
  · rfl
  · simp [Place.isFinal] at hfinal
  · simp [Place.isFinal] at hfinal

end Buffer.Nested

namespace Cursor

variable {b : Buffer} {c d : Cursor} {ts : List Placed}

/-- The last token of a buffer is the end of a line. -/
theorem In.exists_lineEnd (h : c.In b) (q : Placed) (hq : (c.here :: c.after).getLast? = some q) :
    ∃ offset mode, q.token = .lineEnd offset mode := by
  have hlast : b.placed.getLast? = some q := by
    rw [← h, toList, List.getLast?_append, hq]
    rfl
  have hmap := congrArg (Option.map Placed.token) hlast
  rw [← List.getLast?_map, Buffer.placed, map_token_placeLines] at hmap
  exact exists_lineEnd_last b.lines q.token hmap

theorem In.kind_last (h : c.In b) (q : Placed) (hq : (c.here :: c.after).getLast? = some q) :
    q.kind = .lineEnd := by
  obtain ⟨offset, mode, htoken⟩ := h.exists_lineEnd q hq
  rw [Placed.kind, htoken, Token.kind_lineEnd]

theorem In.raw_of_after_nil (h : c.In b) (hnil : c.after = []) : c.raw = ['\n'] := by
  obtain ⟨offset, mode, htoken⟩ := h.exists_lineEnd c.here (by rw [hnil]; rfl)
  rw [raw, htoken]
  rfl

/-- The tokens behind a cursor lead to its place, and those ahead go on from there. -/
theorem In.phase (h : c.In b) (hp : Phase .code b.placed) :
    Phase .code c.before.reverse ∧ Place.code.along c.before.reverse = b.text.placeAt c.start ∧
      Phase (b.text.placeAt c.start) (c.here :: c.after) := by
  rw [← h, toList, phase_append] at hp
  have hplace : Place.code.along c.before.reverse = b.text.placeAt c.start := by
    rw [← hp.1.after, Text.placeAt, h.take_text]
  exact ⟨hp.1, hplace, hplace ▸ hp.2⟩

theorem In.at (h : c.In b) (hb : b.Nested) :
    c.At (b.text.placeAt c.start) (b.text.listsAt c.start) := by
  obtain ⟨hbefore, hplace, hphase⟩ := h.phase hb.phase
  have hnest := hb.nest_placed
  have halong := hb.along_code
  rw [← h, toList] at hnest halong
  rw [fencesOf_append] at hnest
  rw [Place.along_append, hplace] at halong
  have hopens : nest [] (fencesOf c.before.reverse) = some (b.text.listsAt c.start) := by
    rw [← hbefore.fences, ← h.take_text]
    exact hb.balanced.nest_take c.start
  obtain ⟨m, hm, hcloses⟩ := nest_append_eq_some.1 hnest
  obtain rfl := Option.some.inj (hopens.symm.trans hm)
  exact ⟨hbefore, hplace, hphase, hopens, hcloses, h.kind_last, halong⟩

theorem In.start_of_span (hc : c.In b) (hd : d.In b) (hs : Span c d ts) :
    d.start = c.start + (StructEdit.rawText ts).length := by
  rw [hd.abut.1, hc.abut.1, hs.behind, rawText_append, List.length_append]

/-- The fences between two cursors are those of the tokens between them. -/
theorem In.fencesBetween (hc : c.In b) (hd : d.In b) (hp : Phase .code b.placed)
    (hs : Span c d ts) :
    c.start ≤ d.start ∧ b.text.fencesBetween c.start d.start = fencesOf ts ∧
      b.text.placeAt d.start = (b.text.placeAt c.start).along ts := by
  obtain ⟨-, hplace, hphase⟩ := hc.phase hp
  rw [hs.ahead, phase_append] at hphase
  have htake : (b.text.take d.start).drop c.start = StructEdit.rawText ts := by
    rw [hd.take_text, hs.behind, rawText_append, hc.abut.1, List.drop_left]
  refine ⟨?_, ?_, ?_⟩
  · rw [hc.start_of_span hd hs]
    exact Nat.le_add_right _ _
  · rw [Text.fencesBetween, htake, hphase.1.fences]
  · rw [← (hd.phase hp).2.1, hs.behind, Place.along_append, hplace]

/-! ## Motions in the text -/

theorem In.walk_forwardSexp (h : c.In b) (hb : b.Nested) (comments : Bool) :
    c.start ≤ (c.forwardSexp comments).cursor.start ∧
      Ends (b.text.placeAt (c.forwardSexp comments).cursor.start)
        (c.forwardSexp comments).cursor ∧
      ∃ l, l.length ≤ 1 ∧
        nest l (b.text.fencesBetween c.start (c.forwardSexp comments).cursor.start) = some [] ∧
        (l ≠ [] → b.text.placeAt (c.forwardSexp comments).cursor.start = .code) := by
  obtain ⟨ts, l, hspan, hl, hleaves, hends⟩ := (h.at hb).forwardSexp comments
  obtain ⟨hle, hfences, hplace⟩ := h.fencesBetween (h.forwardSexp comments) hb.phase hspan
  rw [hfences, hplace]
  exact ⟨hle, hends, l, hl, hleaves.closes, (h.at hb).code_of_leaves hspan hleaves⟩

theorem In.walk_forwardList? (h : c.In b) (hb : b.Nested) (hd : c.forwardList? = some d) :
    c.start ≤ d.start ∧ ∃ l, nest l (b.text.fencesBetween c.start d.start) = some [] := by
  obtain ⟨ts, l, hspan, hnest⟩ := (h.at hb).forwardList? hd
  obtain ⟨hle, hfences, -⟩ := h.fencesBetween (h.forwardList? hd) hb.phase hspan
  rw [hfences]
  exact ⟨hle, l, hnest⟩

theorem In.walk_backwardSexp (h : c.In b) (hb : b.Nested) (comments : Bool) :
    (c.backwardSexp comments).cursor.start ≤ c.start ∧ ∃ m, m.length ≤ 1 ∧
      nest [] (b.text.fencesBetween (c.backwardSexp comments).cursor.start c.start) = some m := by
  obtain ⟨ts, m, hspan, hm, hnest⟩ := (h.at hb).backwardSexp comments
  obtain ⟨hle, hfences, -⟩ := (h.backwardSexp comments).fencesBetween h hb.phase hspan
  rw [hfences]
  exact ⟨hle, m, hm, hnest⟩

theorem In.walk_backwardList? (h : c.In b) (hb : b.Nested) (hd : c.backwardList? = some d) :
    d.start ≤ c.start ∧ ∃ m, nest [] (b.text.fencesBetween d.start c.start) = some m := by
  obtain ⟨ts, m, hspan, hnest⟩ := (h.at hb).backwardList? hd
  obtain ⟨hle, hfences, -⟩ := (h.backwardList? hd).fencesBetween h hb.phase hspan
  rw [hfences]
  exact ⟨hle, m, hnest⟩

theorem In.walk_forwardSpace (h : c.In b) (hb : b.Nested) (comments : Bool) :
    c.start ≤ (c.forwardSpace comments).start ∧
      b.text.fencesBetween c.start (c.forwardSpace comments).start = [] := by
  obtain ⟨ts, hspan, hskip, -⟩ := (h.at hb).forwardSpace comments
  obtain ⟨hle, hfences, -⟩ := h.fencesBetween (h.forwardSpace comments) hb.phase hspan
  rw [hfences]
  exact ⟨hle, fencesOf_skipped hskip⟩

theorem In.walk_backwardSpace (h : c.In b) (hb : b.Nested) (comments : Bool) :
    (c.backwardSpace comments).start ≤ c.start ∧
      b.text.fencesBetween (c.backwardSpace comments).start c.start = [] := by
  obtain ⟨ts, hspan, hskip, -⟩ := span_backwardSpace comments c
  obtain ⟨hle, hfences, -⟩ := (h.backwardSpace comments).fencesBetween h hb.phase hspan
  rw [hfences]
  exact ⟨hle, fencesOf_skipped hskip⟩

/-- Back over blanks, code is left for code, and no comment is stopped in. -/
theorem In.place_backwardSpace (h : c.In b) (hb : b.Nested) (comments : Bool) :
    (b.text.placeAt c.start = .code → b.text.placeAt (c.backwardSpace comments).start = .code) ∧
      (comments = true → b.text.placeAt (c.backwardSpace comments).start ≠ .comment) := by
  obtain ⟨q, hat, hcode, hcomment⟩ := (h.at hb).backwardSpace comments
  have hq : b.text.placeAt (c.backwardSpace comments).start = q := by
    rw [← ((h.backwardSpace comments).at hb).place, hat.place]
  rw [hq]
  exact ⟨hcode, hcomment⟩

/-! ## Brackets in the text -/

theorem In.stop_eq (h : c.In b) (hk : c.kind ≠ .lineEnd) : c.stop = c.start + c.raw.length := by
  unfold stop
  rw [if_neg]
  · rfl
  · intro hnil
    exact hk (h.kind_last c.here (by rw [List.isEmpty_iff.1 hnil]; rfl))

theorem In.next_of_kind (h : c.In b) (hk : c.kind ≠ .lineEnd) :
    Span c c.next [c.here] ∧ c.next.start = c.stop := by
  have hstop := h.stop_eq hk
  obtain ⟨before, here, after⟩ := c
  cases after with
  | nil => exact absurd (h.kind_last here rfl) hk
  | cons n after =>
    have hspan := span_one before here n after
    refine ⟨hspan, (In.start_of_span h h.next hspan).trans ?_⟩
    rw [hstop]
    simp [raw]

/-- The raw text of a token is what stands in the text between its offsets. -/
theorem In.slice_raw (h : c.In b) (hk : c.kind ≠ .lineEnd) :
    b.text.slice c.start c.stop = c.raw := by
  obtain ⟨hspan, hnext⟩ := h.next_of_kind hk
  rw [Text.slice, ← hnext, h.next.take_text, hspan.behind, rawText_append, h.abut.1, List.drop_left]
  simp [raw]

/-- A step back and a step on end where they started. -/
theorem next_prev (hk : c.prevKind ≠ .lineEnd) : c.prev.next = c := by
  obtain ⟨before, here, after⟩ := c
  cases before with
  | nil => exact absurd rfl hk
  | cons p before => rfl

/-- One step back, on the token before. -/
theorem In.behind (h : c.In b) (hk : c.prevKind ≠ .lineEnd) :
    c.prev.In b ∧ c.prev.kind = c.prevKind ∧ c.prev.raw = c.prevToken.raw ∧
      c.prev.stop = c.start ∧ c.prev.start = c.start - c.prevToken.length := by
  obtain ⟨htoken, hkind⟩ := prev_of_prevKind hk
  have hne : c.prev.kind ≠ .lineEnd := by rwa [hkind]
  have hraw : c.prev.raw = c.prevToken.raw := congrArg Token.raw htoken
  have hstop : c.prev.stop = c.start := by
    rw [← (h.prev.next_of_kind hne).2, next_prev hk]
  refine ⟨h.prev, hkind, hraw, hstop, ?_⟩
  rw [h.prev.stop_eq hne, hraw] at hstop
  rw [Token.length]
  omega

variable (hp : Phase .code b.placed)
include hp

/-- A bracket token that leads from code to code is a fence of the text. -/
theorem In.fenceAt {f : Fence} (h : c.In b) (hk : c.kind = .opening ∨ c.kind = .closing)
    (hf : c.kind.fences c.raw = [f]) : b.text.FenceAt c.start c.stop f := by
  have hne : c.kind ≠ .lineEnd := by rcases hk with hk | hk <;> simp [hk]
  have hsuits : Suits (b.text.placeAt c.start) c.kind c.raw := (h.phase hp).2.2.1
  have hcode : b.text.placeAt c.start = .code := by
    have hadmits := hsuits.admits
    generalize b.text.placeAt c.start = p at hadmits
    cases p <;> rcases hk with hk | hk <;> simp_all [Place.admits]
  obtain ⟨hspan, hnext⟩ := h.next_of_kind hne
  obtain ⟨hle, hbetween, hplace⟩ := h.fencesBetween h.next hp hspan
  rw [hnext] at hle hbetween hplace
  refine ⟨hle, hcode, ?_, ?_⟩
  · rw [hplace, hcode]
    show Place.code.pass c.kind = .code
    rcases hk with hk | hk <;> rw [hk] <;> rfl
  · rw [hbetween, fencesOf_cons, fencesOf_nil, List.append_nil]
    exact hf

theorem In.opening (h : c.In b) (hk : c.kind = .opening) :
    ∃ x, Bracket.ofText? c.raw = some x ∧ c.raw ∈ Bracket.openers ∧
      b.text.FenceAt c.start c.stop (.opens x) := by
  have hsuits := (h.phase hp).2.2.1
  obtain ⟨x, hx, hfences⟩ := fences_opening hsuits hk
  exact ⟨x, hx, hsuits.opening hk, h.fenceAt hp (Or.inl hk) hfences⟩

theorem In.closing (h : c.In b) (hk : c.kind = .closing) :
    ∃ x, Bracket.ofText? c.raw = some x ∧ c.raw ∈ Bracket.closers ∧
      b.text.FenceAt c.start c.stop (.closes x) := by
  have hsuits := (h.phase hp).2.2.1
  obtain ⟨x, hx, hfences⟩ := fences_closing hsuits hk
  exact ⟨x, hx, hsuits.closing hk, h.fenceAt hp (Or.inr hk) hfences⟩

/-- The bracket that a cursor stands behind. -/
theorem In.opener (h : c.In b) (hk : c.prevKind = .opening) :
    ∃ x, Bracket.ofText? c.prevToken.raw = some x ∧ c.prevToken.raw ∈ Bracket.openers ∧
      b.text.FenceAt (c.start - c.prevToken.length) c.start (.opens x) := by
  obtain ⟨hin, hkind, hraw, hstop, hstart⟩ := h.behind (by rw [hk]; simp)
  obtain ⟨x, hx, hmem, hfence⟩ := hin.opening hp (hkind.trans hk)
  rw [hraw] at hx hmem
  rw [hstop, hstart] at hfence
  exact ⟨x, hx, hmem, hfence⟩

end Cursor
end StructEdit
