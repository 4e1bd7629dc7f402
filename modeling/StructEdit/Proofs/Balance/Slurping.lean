import StructEdit.Proofs.Balance.Edits

/-!
# Slurping and barfing in balanced text

A delimiter goes over an expression, forwards or backwards. That is right when it comes to
stand in code and the lists that the motion leaves on the way, if any, are of its family.
-/
namespace StructEdit

namespace Text.Balanced

variable {s raw : Text} {i j t : Nat} {x : Bracket} {l m : List Bracket}

/-- A closing delimiter outwards: it has to come to stand in code. -/
theorem closer_forward_iff (h : s.Balanced) (hf : s.FenceAt i j (.closes x)) (hjt : j ≤ t)
    (hplace : s.placeAt t = .code ∨ s.placeAt t = .comment)
    (hl : nest l (s.fencesBetween j t) = some []) (hraw : raw ∈ Bracket.closers)
    (hx : Bracket.ofText? raw = some x) :
    Text.Balanced (s.take i ++ ((s.take t).drop j ++ raw) ++ s.drop t) ↔
      s.placeAt t = .code ∧ ∀ y ∈ s.closed j t, y = x := by
  obtain ⟨hclosed, hlists⟩ := h.lists_closed hjt hl
  have hbetween := piece_between s hjt
  rw [hf.stop, ← hf.start] at hbetween
  rw [hclosed]
  rcases hplace with hplace | hplace
  · have hlast : Piece (s.placeAt t) raw [.closes x] .code := by
      rw [hplace]
      exact piece_closer hraw hx
    rw [h.splice_iff (hbetween.append hlast) (Or.inl hplace.symm), h.lists_closing hf, hlists,
      nest_around hl]
    simp [hplace]
  · have hlast : Piece (s.placeAt t) raw [] .comment := by
      obtain ⟨hne, hquiet⟩ := quiet_of_delimiter (List.mem_append_right _ hraw)
      rw [hplace]
      exact Place.piece_quiet (by simp) hne hquiet
    rw [h.splice_iff (hbetween.append hlast) (Or.inl hplace.symm), h.lists_closing hf, hlists,
      List.append_nil, nest_of_closes hl]
    simp only [hplace, reduceCtorEq, false_and, iff_false]
    intro heq
    exact absurd (congrArg List.length heq) (by simp)

/-- An opening delimiter outwards. -/
theorem opener_backward_iff (h : s.Balanced) (hf : s.FenceAt i j (.opens x)) (hti : t ≤ i)
    (hplace : s.placeAt t = .code) (hm : nest [] (s.fencesBetween t i) = some m)
    (hraw : raw ∈ Bracket.openers) (hx : Bracket.ofText? raw = some x) :
    Text.Balanced (s.take t ++ (raw ++ (s.take i).drop t) ++ s.drop j) ↔
      ∀ y ∈ s.opened t i, y = x := by
  obtain ⟨hopened, hlists⟩ := h.lists_opened hti hm
  have hbetween := piece_between s hti
  rw [hplace, hf.start] at hbetween
  have hmid : Piece (s.placeAt t) (raw ++ (s.take i).drop t)
      (.opens x :: s.fencesBetween t i) .code := by
    rw [hplace]
    exact (piece_opener hraw hx).append hbetween
  rw [hopened, h.splice_iff hmid (Or.inl hf.stop.symm), h.lists_opening hf, hlists, nest_opens,
    nest_of_opens hm, Option.some.injEq, eq_comm, cons_append_comm_iff]

/-- A closing delimiter inwards. -/
theorem closer_backward_iff (h : s.Balanced) (hf : s.FenceAt i j (.closes x)) (hti : t ≤ i)
    (hplace : s.placeAt t = .code) (hm : nest [] (s.fencesBetween t i) = some m)
    (hone : m.length ≤ 1) (hraw : raw ∈ Bracket.closers) (hx : Bracket.ofText? raw = some x) :
    Text.Balanced (s.take t ++ (raw ++ (s.take i).drop t) ++ s.drop j) ↔
      (s.listsAt t).head? = some x := by
  obtain ⟨-, hlists⟩ := h.lists_opened hti hm
  rw [h.lists_closing hf] at hlists
  have hbetween := piece_between s hti
  rw [hplace, hf.start] at hbetween
  have hmid : Piece (s.placeAt t) (raw ++ (s.take i).drop t)
      (.closes x :: s.fencesBetween t i) .code := by
    rw [hplace]
    exact (piece_closer hraw hx).append hbetween
  rw [h.splice_iff hmid (Or.inl hf.stop.symm), nest_closes_eq_some]
  constructor
  · rintro ⟨rest, hrest, -⟩
    rw [hrest]
    rfl
  · intro hhead
    cases hl : s.listsAt t with
    | nil => simp [hl] at hhead
    | cons y rest =>
      rw [hl] at hhead hlists
      obtain rfl : y = x := Option.some.inj hhead
      refine ⟨rest, rfl, ?_⟩
      rw [nest_of_opens hm]
      match m, hone, hlists with
      | [], _, hlists => rw [(List.cons.inj hlists).2, List.nil_append]
      | [z], _, hlists =>
        obtain ⟨rfl, hrest⟩ := List.cons.inj hlists
        rw [hrest]
        rfl

/-- An opening delimiter inwards. -/
theorem opener_forward_iff (h : s.Balanced) (hf : s.FenceAt i j (.opens x)) (hjt : j ≤ t)
    (hplace : s.placeAt t = .code) (hl : nest l (s.fencesBetween j t) = some [])
    (hone : l.length ≤ 1) (hraw : raw ∈ Bracket.openers) (hx : Bracket.ofText? raw = some x) :
    Text.Balanced (s.take i ++ ((s.take t).drop j ++ raw) ++ s.drop t) ↔
      (s.listsAt t).head? = some x := by
  obtain ⟨-, hlists⟩ := h.lists_closed hjt hl
  rw [h.lists_opening hf] at hlists
  have hbetween := piece_between s hjt
  rw [hf.stop, ← hf.start, hplace] at hbetween
  rw [h.splice_iff (hbetween.append (piece_opener hraw hx)) (Or.inl hplace.symm),
    nest_append_eq_some]
  constructor
  · rintro ⟨n, -, hopens⟩
    rw [← Option.some.inj hopens]
    rfl
  · intro hhead
    cases hl' : s.listsAt t with
    | nil => simp [hl'] at hhead
    | cons y rest =>
      rw [hl'] at hhead hlists
      obtain rfl : y = x := Option.some.inj hhead
      refine ⟨rest, (nest_of_closes hl).2 ?_, rfl⟩
      match l, hone, hlists with
      | [], _, hlists => rw [(List.cons.inj hlists).2, List.nil_append]
      | [z], _, hlists =>
        obtain ⟨rfl, hrest⟩ := List.cons.inj hlists
        rw [hrest]
        rfl

end Text.Balanced

namespace Buffer

/-- The closing delimiter comes to stand in code, and only lists of its family are left on the way. -/
def KeepsSlurpForward (b : Buffer) (i : Nat) : Prop :=
  match (b.cursorAt i).forwardList? with
  | none => True
  | some e =>
    let r := e.next.forwardSexp false
    let t := (r.cursor.backwardSpace false).start
    r.found = true →
      b.text.placeAt t = .code ∧ ∀ y ∈ b.text.closed e.stop t, some y = Bracket.ofText? e.raw

/-- On the way back only lists of the family of the opening delimiter are entered. -/
def KeepsSlurpBackward (b : Buffer) (i : Nat) : Prop :=
  match (b.cursorAt i).backwardList? with
  | none => True
  | some inside =>
    let o := inside.prev
    let r := o.backwardSexp false
    let t := (r.cursor.forwardSpace false).start
    r.found = true → ∀ y ∈ b.text.opened t o.start, some y = Bracket.ofText? o.raw

/-- Where the closing delimiter goes, the innermost list is of its family. -/
def KeepsBarfForward (b : Buffer) (i : Nat) : Prop :=
  match (b.cursorAt i).forwardList? with
  | none => True
  | some e =>
    let r := e.backwardSexp false
    let t := (r.cursor.backwardSpace true).start
    r.found = true → (b.text.listsAt t).head? = Bracket.ofText? e.raw

/-- Where the opening delimiter goes, the innermost list is of its family. -/
def KeepsBarfBackward (b : Buffer) (i : Nat) : Prop :=
  match (b.cursorAt i).backwardList? with
  | none => True
  | some inside =>
    let o := inside.prev
    let r := inside.forwardSexp false
    let t := (r.cursor.forwardSpace false).start
    r.found = true → (b.text.listsAt t).head? = Bracket.ofText? o.raw

end Buffer

namespace Cursor

variable {b : Buffer} {c : Cursor}

/-- An expression found on the way back starts in code. -/
theorem In.code_of_backwardSexp (h : c.In b) (hb : b.Nested) {comments : Bool}
    (hf : (c.backwardSexp comments).found = true) :
    b.text.placeAt (c.backwardSexp comments).cursor.start = .code := by
  have hrole : (c.backwardSexp comments).cursor.kind.roleBehind comments ≠ .pass := by
    simp only [Cursor.backwardSexp] at hf ⊢
    split at hf
    · simp at hf
    · rename_i hk
      rw [if_neg hk]
      exact sexpBehind_found_role hf
  refine ((h.backwardSexp comments).at hb).code_of_kind fun hmem => hrole ?_
  simp only [List.mem_cons, List.not_mem_nil, or_false] at hmem
  rcases hmem with hk | hk | hk | hk <;> rw [hk] <;> rfl

/-- Over blanks without comments, code is left for code. -/
theorem In.code_of_forwardSpace (h : c.In b) (hb : b.Nested)
    (hcode : b.text.placeAt c.start = .code) :
    b.text.placeAt (c.forwardSpace false).start = .code := by
  obtain ⟨ts, hspan, hskip, -⟩ := (h.at hb).forwardSpace false
  obtain ⟨-, -, hplace⟩ := h.fencesBetween (h.forwardSpace false) hb.phase hspan
  rw [hplace, hcode]
  clear hspan hplace
  induction ts with
  | nil => rfl
  | cons q ts ih =>
    have hq := hskip q List.mem_cons_self
    have hpass : Place.code.pass q.kind = .code := by
      cases hk : q.kind <;> simp_all [Kind.isSkipped, Place.pass]
    rw [Place.along_cons, hpass]
    exact ih fun r hr => hskip r (List.mem_cons_of_mem _ hr)

/-- Behind an opening bracket the list is still open, so that the end of the text is not reached. -/
theorem In.code_of_forwardSexp (h : c.In b) (hb : b.Nested) (hk : c.prevKind = .opening) :
    b.text.placeAt (c.forwardSexp false).cursor.start = .code := by
  obtain ⟨hin, hkind, -, hstop, -⟩ := h.behind (by rw [hk]; simp)
  obtain ⟨x, -, -, hfence⟩ := hin.opening hb.phase (hkind.trans hk)
  rw [hstop] at hfence
  obtain ⟨hle, hends, l, -, hl, hcode⟩ := h.walk_forwardSexp hb false
  rcases hends with hcode' | ⟨-, hnil⟩
  · exact hcode'
  · refine hcode fun hlnil => ?_
    have hlists := (hb.balanced.lists_closed hle hl).2
    rw [hlnil, (h.forwardSexp false).lists_of_after_nil hb hnil,
      hb.balanced.lists_opening hfence] at hlists
    simp at hlists

end Cursor

namespace Document

variable {d : Document}

theorem text_carryForward {delimiter : Text} {source target : Nat}
    (hd : delimiter ∈ Bracket.openers ++ Bracket.closers)
    (hle : source + delimiter.length ≤ target) (ht : target ≤ d.buffer.maxOffset) :
    (d.carryForward delimiter source target).buffer.text =
      d.buffer.text.take source ++
        ((d.buffer.text.take target).drop (source + delimiter.length) ++ delimiter) ++
        d.buffer.text.drop target := by
  rw [carryForward, buffer_perform, Buffer.text_flush, buffer_splice, buffer_splice, buffer_begun,
    Buffer.text_replace_replace (Nat.le_add_right _ _) hle (Nat.le_refl _) ht (by simp)
      (Text.newline_not_mem_delimiter hd), List.nil_append]

theorem text_carryBackward {delimiter : Text} {source target : Nat}
    (hd : delimiter ∈ Bracket.openers ++ Bracket.closers) (hle : target ≤ source)
    (hs : source ≤ d.buffer.maxOffset) :
    (d.carryBackward delimiter source target).buffer.text =
      d.buffer.text.take target ++ (delimiter ++ (d.buffer.text.take source).drop target) ++
        d.buffer.text.drop (source + delimiter.length) := by
  rw [carryBackward, buffer_perform, Buffer.text_flush, buffer_splice, buffer_splice, buffer_begun,
    Buffer.text_replace_replace (Nat.le_refl _) hle (Nat.le_add_right _ _) hs
      (Text.newline_not_mem_delimiter hd) (by simp), List.append_nil]

theorem balanced_slurpForward_iff (hb : d.buffer.Nested) :
    d.slurpForward.buffer.text.Balanced ↔ d.buffer.KeepsSlurpForward d.caret := by
  have hcursor : d.buffer.cursorAt d.caret = d.cursor := rfl
  have hin : d.cursor.In d.buffer := d.buffer.in_cursorAt d.caret
  simp only [slurpForward, Buffer.KeepsSlurpForward, hcursor]
  cases he : d.cursor.forwardList? with
  | none => exact iff_true_intro hb.balanced
  | some e =>
    have hein := hin.forwardList? he
    have hk := (Cursor.forwardList?_eq_some he).2
    have hne : e.kind ≠ .lineEnd := by simp [hk]
    obtain ⟨x, hx, hraw, hfence⟩ := hein.closing hb.phase hk
    have hnext := (hein.next_of_kind hne).2
    have hrin := hein.next.forwardSexp false
    obtain ⟨hle, hends, l, -, hl, -⟩ := hein.next.walk_forwardSexp hb false
    simp only
    by_cases hf : (e.next.forwardSexp false).found = true
    · rw [if_pos hf, (hein.next.at hb).backwardSpace_forwardSexp hf]
      simp only [hf, forall_const, hx, Option.some.injEq]
      rw [hnext] at hle hl
      have hstop := hein.stop_eq hne
      rw [text_carryForward (List.mem_append_right _ hraw) (hstop ▸ hle) hrin.start_le, ← hstop]
      exact hb.balanced.closer_forward_iff hfence hle (hends.imp id And.left) hl hraw hx
    · rw [if_neg hf]
      simp only [hf, Bool.false_eq_true, false_implies, iff_true]
      exact hb.balanced

theorem balanced_slurpBackward_iff (hb : d.buffer.Nested) :
    d.slurpBackward.buffer.text.Balanced ↔ d.buffer.KeepsSlurpBackward d.caret := by
  have hcursor : d.buffer.cursorAt d.caret = d.cursor := rfl
  have hin : d.cursor.In d.buffer := d.buffer.in_cursorAt d.caret
  simp only [slurpBackward, Buffer.KeepsSlurpBackward, hcursor]
  cases hi : d.cursor.backwardList? with
  | none => exact iff_true_intro hb.balanced
  | some inside =>
    obtain ⟨hoin, hk⟩ := prev_of_backwardList? hin hi
    have hne : inside.prev.kind ≠ .lineEnd := by simp [hk]
    obtain ⟨x, hx, hraw, hfence⟩ := hoin.opening hb.phase hk
    obtain ⟨hle, m, -, hm⟩ := hoin.walk_backwardSexp hb false
    simp only
    by_cases hf : (inside.prev.backwardSexp false).found = true
    · rw [if_pos hf,
        Cursor.forwardSpace_of_not_skipped (Cursor.backwardSexp_found_not_skipped hf)]
      simp only [hf, forall_const, hx, Option.some.injEq]
      rw [text_carryBackward (List.mem_append_left _ hraw) hle hoin.start_le,
        ← hoin.stop_eq hne]
      exact hb.balanced.opener_backward_iff hfence hle (hoin.code_of_backwardSexp hb hf) hm hraw hx
    · rw [if_neg hf]
      simp only [hf, Bool.false_eq_true, false_implies, iff_true]
      exact hb.balanced

theorem balanced_barfForward_iff (hb : d.buffer.Nested) :
    d.barfForward.buffer.text.Balanced ↔ d.buffer.KeepsBarfForward d.caret := by
  have hcursor : d.buffer.cursorAt d.caret = d.cursor := rfl
  have hin : d.cursor.In d.buffer := d.buffer.in_cursorAt d.caret
  simp only [barfForward, Buffer.KeepsBarfForward, hcursor]
  cases he : d.cursor.forwardList? with
  | none => exact iff_true_intro hb.balanced
  | some e =>
    have hein := hin.forwardList? he
    have hk := (Cursor.forwardList?_eq_some he).2
    have hne : e.kind ≠ .lineEnd := by simp [hk]
    obtain ⟨x, hx, hraw, hfence⟩ := hein.closing hb.phase hk
    have hrin := hein.backwardSexp false
    obtain ⟨hle, m, hone, hm⟩ := hein.walk_backwardSexp hb false
    simp only
    by_cases hf : (e.backwardSexp false).found = true
    · obtain ⟨hle', hnone⟩ := hrin.walk_backwardSpace hb true
      have hcode := (hrin.place_backwardSpace hb true).1 (hein.code_of_backwardSexp hb hf)
      have hm' := hm
      rw [← List.nil_append (d.buffer.text.fencesBetween _ _), ← hnone,
        ← Text.fencesBetween_append d.buffer.text hle' hle] at hm'
      rw [if_pos hf]
      simp only [hf, forall_const, hx]
      rw [text_carryBackward (List.mem_append_right _ hraw) (Nat.le_trans hle' hle) hein.start_le,
        ← hein.stop_eq hne]
      exact hb.balanced.closer_backward_iff hfence (Nat.le_trans hle' hle) hcode hm' hone hraw hx
    · rw [if_neg hf]
      simp only [hf, Bool.false_eq_true, false_implies, iff_true]
      exact hb.balanced

theorem balanced_barfBackward_iff (hb : d.buffer.Nested) :
    d.barfBackward.buffer.text.Balanced ↔ d.buffer.KeepsBarfBackward d.caret := by
  have hcursor : d.buffer.cursorAt d.caret = d.cursor := rfl
  have hin : d.cursor.In d.buffer := d.buffer.in_cursorAt d.caret
  simp only [barfBackward, Buffer.KeepsBarfBackward, hcursor]
  cases hi : d.cursor.backwardList? with
  | none => exact iff_true_intro hb.balanced
  | some inside =>
    have hinside := hin.backwardList? hi
    have hprev := (Cursor.backwardList?_eq_some hi).2
    obtain ⟨hoin, hkind, -, hstop, -⟩ := hinside.behind (by rw [hprev]; simp)
    have hk := hkind.trans hprev
    have hne : inside.prev.kind ≠ .lineEnd := by simp [hk]
    obtain ⟨x, hx, hraw, hfence⟩ := hoin.opening hb.phase hk
    rw [hstop] at hfence
    have hrin := hinside.forwardSexp false
    obtain ⟨hle, -, l, hone, hl, -⟩ := hinside.walk_forwardSexp hb false
    simp only
    by_cases hf : (inside.forwardSexp false).found = true
    · have hplace := hinside.code_of_forwardSexp hb hprev
      obtain ⟨hle', hnone⟩ := hrin.walk_forwardSpace hb false
      have hl' := hl
      rw [← List.append_nil (d.buffer.text.fencesBetween _ _), ← hnone,
        ← Text.fencesBetween_append d.buffer.text hle hle'] at hl'
      rw [if_pos hf]
      simp only [hf, forall_const, hx]
      have hlen := (hoin.stop_eq hne).symm.trans hstop
      rw [text_carryForward (List.mem_append_left _ hraw) (hlen ▸ Nat.le_trans hle hle')
        (hrin.forwardSpace false).start_le, hlen]
      exact hb.balanced.opener_forward_iff hfence (Nat.le_trans hle hle')
        (hrin.code_of_forwardSpace hb hplace) hl' hone hraw hx
    · rw [if_neg hf]
      simp only [hf, Bool.false_eq_true, false_implies, iff_true]
      exact hb.balanced

end Document
end StructEdit
