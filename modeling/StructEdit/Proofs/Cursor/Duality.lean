import StructEdit.Proofs.Cursor.Levels

/-!
# Motions that undo each other

The motions over an expression forward and back differ in the roles of some tokens. Forwards, a
string on several lines ends at its last part, and comments are passed by. Backwards, it ends at
its first part, and a comment is an expression. Nevertheless both go over the same words: an
atom, the parts of a string, or a list. Inside a list only the brackets count, and a word that keeps
the depth on the way forward keeps it on the way back. Inside a string neither motion meets
anything but the parts of the string.

So one motion leads from the start of an expression to its end, and from there the other leads back
to the start. The brackets of the text need not match, and marks and junk may stand anywhere.
-/
namespace StructEdit

/-! ## Expressions -/

/-- A token that is an expression by itself. -/
def Kind.isAtom : Kind → Bool
  | .symbol | .literal | .keyword | .string => true
  | _ => false

/-- The kinds of tokens that expressions start with. -/
def Kind.starts (k : Kind) : Bool := k.isAtom || k == .stringStart || k == .opening

/-- The kinds of tokens that expressions end with. -/
def Kind.ends (k : Kind) : Bool := k.isAtom || k == .stringEnd || k == .closing

/-- What stands between the first and the last part of a string. Junk is a backslash at the end of a
row. -/
def Kind.isInner : Kind → Bool
  | .stringMiddle | .junk | .lineEnd => true
  | _ => false

/-- The words that both motions go over. -/
inductive Expression : List Placed → Prop
  | atom {q : Placed} : q.kind.isAtom = true → Expression [q]
  | string {q z : Placed} {ws : List Placed} : q.kind = .stringStart →
      (∀ r ∈ ws, r.kind.isInner = true) → z.kind = .stringEnd → Expression (q :: ws ++ [z])
  | list {q z : Placed} {us : List Placed} : q.kind = .opening → Level Kind.ahead 0 us →
      z.kind = .closing → Expression (q :: us ++ [z])

theorem reverse_enclosed (q z : Placed) (ws : List Placed) :
    (q :: ws ++ [z]).reverse = z :: (ws.reverse ++ [q]) := by
  simp

theorem role_of_inner {k : Kind} (h : k.isInner = true) :
    k.roleAhead true = .pass ∧ k.roleBehind false = .pass := by
  revert h
  cases k <;> decide

theorem role_of_atom {k : Kind} (h : k.isAtom = true) :
    k.roleAhead true = .atom ∧ k.roleBehind false = .atom := by
  revert h
  cases k <;> decide

namespace Expression

variable {ts : List Placed}

theorem search_ahead (h : Expression ts) : Search (Kind.roleAhead true) 0 ts := by
  cases h with
  | atom hq => exact .found (Or.inl (role_of_atom hq).1)
  | string hq hws hz =>
    refine .pass (by rw [hq]; rfl) (Search.skip (fun r hr => (role_of_inner (hws r hr)).1) ?_)
    exact .found (Or.inl (by rw [hz]; rfl))
  | list hq hus hz =>
    refine .enter (by rw [hq]; rfl) (search_succ_iff.2 ⟨_, _, rfl, by rw [hz]; rfl, ?_⟩)
    rwa [funext (weight_roleAhead true)]

theorem search_behind (h : Expression ts) : Search (Kind.roleBehind false) 0 ts.reverse := by
  cases h with
  | atom hq => exact .found (Or.inl (role_of_atom hq).2)
  | string hq hws hz =>
    rw [reverse_enclosed]
    refine .pass (by rw [hz]; rfl) (Search.skip (fun r hr => ?_) ?_)
    · exact (role_of_inner (hws r (List.mem_reverse.1 hr))).2
    · exact .found (Or.inl (by rw [hq]; rfl))
  | list hq hus hz =>
    rw [reverse_enclosed]
    refine .enter (by rw [hz]; rfl) (search_succ_iff.2 ⟨_, _, rfl, by rw [hq]; rfl, ?_⟩)
    rw [funext (weight_roleBehind false)]
    exact hus.reverse fun _ => rfl

theorem head (h : Expression ts) : ∃ q rest, ts = q :: rest ∧ q.kind.starts = true := by
  cases h with
  | atom hq => exact ⟨_, _, rfl, by rw [Kind.starts, hq]; rfl⟩
  | string hq _ _ => exact ⟨_, _, rfl, by rw [hq]; rfl⟩
  | list hq _ _ => exact ⟨_, _, rfl, by rw [hq]; rfl⟩

theorem last (h : Expression ts) : ∃ z rest, ts.reverse = z :: rest ∧ z.kind.ends = true := by
  cases h with
  | atom hq => exact ⟨_, _, rfl, by rw [Kind.ends, hq]; rfl⟩
  | string _ _ hz => exact ⟨_, _, reverse_enclosed _ _ _, by rw [hz]; rfl⟩
  | list _ _ hz => exact ⟨_, _, reverse_enclosed _ _ _, by rw [hz]; rfl⟩

end Expression

/-! ## Searches for expressions -/

section Strings

variable {p : Place} {k : Kind} {q : Placed} {us rest : List Placed}

theorem inner_of_pass_ahead (hadmits : p.admits k = true) (hp : p.isFinal = false)
    (hrole : k.roleAhead true = .pass) : k.isInner = true ∧ (p.pass k).isFinal = false := by
  revert hadmits hp hrole
  cases p <;> cases k <;> decide

theorem stringEnd_of_not_pass (hadmits : p.admits k = true) (hp : p.isFinal = false)
    (hrole : k.roleAhead true ≠ .pass) : k = .stringEnd := by
  revert hadmits hp hrole
  cases p <;> cases k <;> decide

theorem inner_of_pass_behind (hadmits : p.admits k = true) (hp : (p.pass k).isFinal = false)
    (hrole : k.roleBehind false = .pass) : k.isInner = true ∧ p.isFinal = false := by
  revert hadmits hp hrole
  cases p <;> cases k <;> decide

theorem stringStart_of_not_pass (hadmits : p.admits k = true) (hp : (p.pass k).isFinal = false)
    (hrole : k.roleBehind false ≠ .pass) : k = .stringStart := by
  revert hadmits hp hrole
  cases p <;> cases k <;> decide

/-- From inside a string, a search goes on to its last part. -/
theorem inner_ahead (hphase : Phase p (us ++ q :: rest)) (hp : p.isFinal = false)
    (hus : ∀ r ∈ us, r.kind.roleAhead true = .pass) (hq : q.kind.roleAhead true ≠ .pass) :
    (∀ r ∈ us, r.kind.isInner = true) ∧ q.kind = .stringEnd := by
  induction us generalizing p with
  | nil => exact ⟨by simp, stringEnd_of_not_pass hphase.1.admits hp hq⟩
  | cons r us ih =>
    rw [List.forall_mem_cons] at hus ⊢
    obtain ⟨hr, hpass⟩ := inner_of_pass_ahead hphase.1.admits hp hus.1
    obtain ⟨hinner, hend⟩ := ih hphase.2 hpass hus.2
    exact ⟨⟨hr, hinner⟩, hend⟩

/-- From inside a string, a search back goes on to its first part. -/
theorem inner_behind (hphase : Phase .code (us ++ q :: rest).reverse)
    (hp : (Place.code.along (us ++ q :: rest).reverse).isFinal = false)
    (hus : ∀ r ∈ us, r.kind.roleBehind false = .pass) (hq : q.kind.roleBehind false ≠ .pass) :
    (∀ r ∈ us, r.kind.isInner = true) ∧ q.kind = .stringStart := by
  induction us with
  | nil =>
    rw [List.nil_append, Cursor.phase_reverse_cons] at hphase
    rw [List.nil_append, List.reverse_cons, Place.along_append] at hp
    exact ⟨by simp, stringStart_of_not_pass hphase.2.1.admits hp hq⟩
  | cons r us ih =>
    rw [List.cons_append, Cursor.phase_reverse_cons] at hphase
    rw [List.cons_append, List.reverse_cons, Place.along_append] at hp
    rw [List.forall_mem_cons] at hus ⊢
    obtain ⟨hr, hstart⟩ := inner_of_pass_behind hphase.2.1.admits hp hus.1
    obtain ⟨hinner, hq⟩ := ih hphase.1 hstart hus.2
    exact ⟨⟨hr, hinner⟩, hq⟩

end Strings

section Searches

variable {q : Placed} {ts rest : List Placed}

/-- A search from the start of an expression goes over that expression. -/
theorem expression_of_ahead {p : Place} (h : Search (Kind.roleAhead true) 0 (q :: ts))
    (hphase : Phase p (q :: ts ++ rest)) (hq : q.kind.starts = true) : Expression (q :: ts) := by
  cases h with
  | pass hrole h =>
    have hstart : q.kind = .stringStart := by
      revert hrole hq
      cases q.kind <;> decide
    obtain ⟨us, z, tail, rfl, hus, hz, htail⟩ := h.split
    have hinside : Phase (p.pass q.kind) (us ++ z :: (tail ++ rest)) := by simpa using hphase.2
    obtain ⟨hinner, hend⟩ := inner_ahead hinside (by rw [hstart]; cases p <;> rfl) hus hz
    obtain rfl : tail = [] := by
      rcases htail with ⟨henter, -⟩ | ⟨-, htail⟩
      · simp [hend, Kind.roleAhead] at henter
      · exact htail
    exact .string hstart hinner hend
  | enter hrole h =>
    obtain ⟨us, z, rfl, hz, hlevel⟩ := search_succ_iff.1 h
    rw [funext (weight_roleAhead true)] at hlevel
    exact .list (Cursor.roleAhead_enter hrole) hlevel (Cursor.roleAhead_leave hz)
  | last hrole _ =>
    rw [Cursor.roleAhead_leave hrole] at hq
    simp [Kind.starts, Kind.isAtom] at hq
  | found hrole =>
    refine .atom ?_
    revert hrole hq
    cases q.kind <;> decide

/-- A search back from the end of an expression goes over that expression. -/
theorem expression_of_behind (h : Search (Kind.roleBehind false) 0 (q :: ts))
    (hphase : Phase .code (q :: ts ++ rest).reverse) (hq : q.kind.ends = true) :
    Expression (q :: ts).reverse := by
  cases h with
  | pass hrole h =>
    have hend : q.kind = .stringEnd := by
      revert hrole hq
      cases q.kind <;> decide
    obtain ⟨us, z, tail, rfl, hus, hz, htail⟩ := h.split
    rw [List.cons_append, Cursor.phase_reverse_cons] at hphase
    have hinside : (Place.code.along (us ++ z :: tail ++ rest).reverse).isFinal = false := by
      have hadmits := hphase.2.1.admits
      rw [hend] at hadmits
      generalize Place.code.along (us ++ z :: tail ++ rest).reverse = p at hadmits
      cases p <;> simp_all [Place.admits, Place.isFinal]
    rw [List.append_assoc, List.cons_append] at hphase hinside
    obtain ⟨hinner, hstart⟩ := inner_behind hphase.1 hinside hus hz
    obtain rfl : tail = [] := by
      rcases htail with ⟨henter, -⟩ | ⟨-, htail⟩
      · simp [hstart, Kind.roleBehind] at henter
      · exact htail
    rw [← List.cons_append, reverse_enclosed]
    exact .string hstart (fun r hr => hinner r (List.mem_reverse.1 hr)) hend
  | enter hrole h =>
    obtain ⟨us, z, rfl, hz, hlevel⟩ := search_succ_iff.1 h
    rw [funext (weight_roleBehind false)] at hlevel
    rw [← List.cons_append, reverse_enclosed]
    exact .list (Cursor.roleBehind_leave hz) (hlevel.reverse fun _ => (Int.neg_neg _).symm)
      (Cursor.roleBehind_enter hrole)
  | last hrole _ =>
    rw [Cursor.roleBehind_leave hrole] at hq
    simp [Kind.ends, Kind.isAtom] at hq
  | found hrole =>
    refine .atom ?_
    revert hrole hq
    cases q.kind <;> decide

end Searches

/-! ## Motions over expressions -/

namespace Cursor

variable {b : Buffer} {c e : Cursor} {depth : Nat} {q here : Placed} {before after ts : List Placed}

theorem Span.uncons (h : Span ⟨before, here, after⟩ e (q :: ts)) :
    here = q ∧ ∃ n rest, after = n :: rest ∧ Span ⟨q :: before, n, rest⟩ e ts := by
  obtain ⟨rfl, hafter⟩ := List.cons.inj h.ahead
  cases after with
  | nil => simp at hafter
  | cons n rest => exact ⟨rfl, n, rest, rfl, h.next.1⟩

theorem Span.unconcat (h : Span c ⟨before, here, after⟩ (q :: ts).reverse) :
    ∃ rest, before = q :: rest ∧ Span c ⟨rest, q, here :: after⟩ ts.reverse := by
  have hbefore := h.before_eq
  rw [List.reverse_reverse, List.cons_append] at hbefore
  refine ⟨ts ++ c.before, hbefore, by simp, ?_⟩
  rw [h.ahead, List.reverse_cons, List.append_assoc]
  rfl

/-- What the search goes over tells where the motion ends. -/
theorem sexpAhead_of_search (h : Search (Kind.roleAhead true) depth ts)
    (hspan : Span ⟨before, here, after⟩ e ts) :
    sexpAhead true depth before here after = ⟨true, e⟩ := by
  have hnote : ∀ k : Kind, k.roleAhead true ≠ .note := by
    intro k
    cases k <;> decide
  induction h generalizing before here after with
  | pass hq _ ih =>
    obtain ⟨rfl, n, rest, rfl, hrest⟩ := hspan.uncons
    rw [sexpAhead, hq]
    exact ih hrest
  | enter hq _ ih =>
    obtain ⟨rfl, n, rest, rfl, hrest⟩ := hspan.uncons
    rw [sexpAhead, hq]
    exact ih hrest
  | leave hq _ ih =>
    obtain ⟨rfl, n, rest, rfl, hrest⟩ := hspan.uncons
    rw [sexpAhead, hq]
    exact (if_neg (by omega)).trans (ih hrest)
  | inside hq _ ih =>
    obtain ⟨rfl, n, rest, rfl, hrest⟩ := hspan.uncons
    rw [sexpAhead, hq.resolve_right (hnote _)]
    exact (if_neg (by omega)).trans (ih hrest)
  | last hq hle =>
    obtain ⟨rfl, n, rest, rfl, hrest⟩ := hspan.uncons
    rw [sexpAhead, hq, ← hrest.eq_of_nil]
    exact if_pos hle
  | found hq =>
    obtain ⟨rfl, n, rest, rfl, hrest⟩ := hspan.uncons
    rw [sexpAhead, hq.resolve_right (hnote _), ← hrest.eq_of_nil]
    rfl

theorem sexpBehind_of_search {comments : Bool} (h : Search (Kind.roleBehind comments) depth ts)
    (hspan : Span c ⟨before, here, after⟩ ts.reverse) :
    sexpBehind comments depth here after before = ⟨true, c⟩ := by
  induction h generalizing before here after with
  | pass hq _ ih =>
    obtain ⟨rest, rfl, hrest⟩ := hspan.unconcat
    rw [sexpBehind, hq]
    exact ih hrest
  | enter hq _ ih =>
    obtain ⟨rest, rfl, hrest⟩ := hspan.unconcat
    rw [sexpBehind, hq]
    exact ih hrest
  | leave hq _ ih =>
    obtain ⟨rest, rfl, hrest⟩ := hspan.unconcat
    rw [sexpBehind, hq]
    exact (if_neg (by omega)).trans (ih hrest)
  | inside hq _ ih =>
    obtain ⟨rest, rfl, hrest⟩ := hspan.unconcat
    rcases hq with hq | hq <;> rw [sexpBehind, hq] <;> exact (if_neg (by omega)).trans (ih hrest)
  | last hq hle =>
    obtain ⟨rest, rfl, hrest⟩ := hspan.unconcat
    rw [sexpBehind, hq, hrest.eq_of_nil]
    exact if_pos hle
  | found hq =>
    obtain ⟨rest, rfl, hrest⟩ := hspan.unconcat
    rcases hq with hq | hq <;> rw [sexpBehind, hq, hrest.eq_of_nil] <;> rfl

theorem backwardSpace_of_not_skipped {comments : Bool}
    (h : c.prevKind.isSkipped comments = false) : c.backwardSpace comments = c := by
  obtain ⟨before, here, after⟩ := c
  cases before with
  | nil => rfl
  | cons q before =>
    have hq : q.kind.isSkipped comments = false := h
    rw [backwardSpace, spaceBehind, if_neg]
    rintro (hblank | ⟨hskip, -⟩)
    · simp [hblank, Kind.isSkipped] at hq
    · simp [hskip] at hq

theorem forwardSexp_of_starts (hk : c.kind.starts = true) :
    c.forwardSexp true = sexpAhead true 0 c.before c.here c.after := by
  have hkind : c.kind.isSkipped true = false ∧ c.kind ≠ .closing := by
    revert hk
    cases c.kind <;> decide
  simp only [forwardSexp, forwardSpace_of_not_skipped hkind.1, if_neg hkind.2]

theorem backwardSexp_of_ends (hk : c.prevKind.ends = true) :
    c.backwardSexp false = sexpBehind false 0 c.here c.after c.before := by
  have hkind : c.prevKind.isSkipped false = false ∧ c.prevKind ≠ .opening := by
    revert hk
    cases c.prevKind <;> decide
  simp only [backwardSexp, backwardSpace_of_not_skipped hkind.1, if_neg hkind.2]

theorem forwardSexp_expression (h : Expression ts) (hspan : Span c e ts) :
    c.forwardSexp true = ⟨true, e⟩ := by
  obtain ⟨q, rest, hts, hq⟩ := h.head
  have hk : c.kind.starts = true := by
    have hahead := hspan.ahead
    rw [hts] at hahead
    rwa [kind, (List.cons.inj hahead).1]
  rw [forwardSexp_of_starts hk]
  exact sexpAhead_of_search h.search_ahead hspan

theorem backwardSexp_expression (h : Expression ts) (hspan : Span c e ts) :
    e.backwardSexp false = ⟨true, c⟩ := by
  obtain ⟨z, rest, hts, hz⟩ := h.last
  have hk : e.prevKind.ends = true := by
    rw [prevKind, hspan.before_eq, hts]
    exact hz
  rw [backwardSexp_of_ends hk]
  refine sexpBehind_of_search h.search_behind ?_
  rwa [List.reverse_reverse]

variable (hp : Phase .code b.placed)
include hp

theorem In.expression_ahead (h : c.In b) (hk : c.kind.starts = true)
    (hf : (c.forwardSexp true).found = true) :
    ∃ ts, Expression ts ∧ Span c (c.forwardSexp true).cursor ts := by
  rw [forwardSexp_of_starts hk] at hf ⊢
  have hphase := (h.phase hp).2.2
  obtain ⟨ts, tail, hsearch, hspan, -, htail⟩ := search_sexpAhead hphase hf
  rw [htail rfl, List.append_nil] at hspan
  have hahead : c.here :: c.after = ts ++ _ := hspan.ahead
  refine ⟨ts, ?_, hspan⟩
  cases ts with
  | nil => cases hsearch
  | cons q ts =>
    have hq : c.kind = q.kind := congrArg Placed.kind (List.cons.inj hahead).1
    rw [hahead] at hphase
    exact expression_of_ahead hsearch hphase (hq ▸ hk)

theorem In.expression_behind (h : c.In b) (hk : c.prevKind.ends = true)
    (hf : (c.backwardSexp false).found = true) :
    ∃ ts, Expression ts ∧ Span (c.backwardSexp false).cursor c ts := by
  rw [backwardSexp_of_ends hk] at hf ⊢
  have hphase := (h.phase hp).1
  obtain ⟨ts, hsearch, hspan⟩ := search_sexpBehind hf
  have hbefore : c.before = ts.reverse.reverse ++ _ := hspan.before_eq
  rw [List.reverse_reverse] at hbefore
  refine ⟨ts.reverse, ?_, hspan⟩
  cases ts with
  | nil => cases hsearch
  | cons q ts =>
    have hq : c.prevKind = q.kind := by rw [prevKind, hbefore]; rfl
    rw [hbefore] at hphase
    exact expression_of_behind hsearch hphase (hq ▸ hk)

end Cursor

/-- In a flushed buffer, whatever has been done to it before, the motion back over an expression leads
to where the motion forward came from, and the motion forward to where the motion back came from. -/
theorem sexps_dual {d : Document} (hd : d.buffer = .empty ∨ ∃ s, d.buffer = .ofText s)
    (ops : List BufferOp) :
    let b := (BufferOp.runAll ops d).buffer.flush
    (∀ c : Cursor, c.In b → c.kind.starts = true → (c.forwardSexp true).found = true →
      (c.forwardSexp true).cursor.backwardSexp false = ⟨true, c⟩) ∧
    ∀ e : Cursor, e.In b → e.prevKind.ends = true → (e.backwardSexp false).found = true →
      (e.backwardSexp false).cursor.forwardSexp true = ⟨true, e⟩ := by
  intro b
  have hphase := BufferOp.phase_flush_runAll hd ops
  constructor
  · intro c hc hk hf
    obtain ⟨ts, hexpr, hspan⟩ := hc.expression_ahead hphase hk hf
    exact Cursor.backwardSexp_expression hexpr hspan
  · intro e he hk hf
    obtain ⟨ts, hexpr, hspan⟩ := he.expression_behind hphase hk hf
    exact Cursor.forwardSexp_expression hexpr hspan

/-- Over a list with a bracket in a comment and a string on two rows, behind a bracket without
partner. -/
theorem sexps_dual_comment :
    let b := (BufferOp.runAll [.markDirty 1] (.ofText [']', '(', 'a', ' ', ';', ')', '\n', '"', 'b',
      '\n', 'c', '"', ' ', 'd', ')'])).buffer.flush
    ((b.cursorAt 1).forwardSexp true).cursor.start = 15 ∧
      ((b.cursorAt 1).forwardSexp true).cursor.backwardSexp false = ⟨true, b.cursorAt 1⟩ ∧
      ((b.cursorAt 15).backwardSexp false).cursor.forwardSexp true = ⟨true, b.cursorAt 15⟩ := by
  intro b
  obtain ⟨hforward, hbackward⟩ := sexps_dual (Or.inr ⟨_, rfl⟩ :
    (Document.ofText [']', '(', 'a', ' ', ';', ')', '\n', '"', 'b', '\n', 'c', '"', ' ', 'd',
      ')']).buffer = .empty ∨ ∃ s, (Document.ofText [']', '(', 'a', ' ', ';', ')', '\n', '"', 'b',
      '\n', 'c', '"', ' ', 'd', ')']).buffer = .ofText s) [.markDirty 1]
  exact ⟨by decide +kernel,
    hforward (b.cursorAt 1) (b.in_cursorAt 1) (by decide +kernel) (by decide +kernel),
    hbackward (b.cursorAt 15) (b.in_cursorAt 15) (by decide +kernel) (by decide +kernel)⟩

end StructEdit
