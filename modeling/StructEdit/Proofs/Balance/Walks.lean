import StructEdit.Proofs.Balance.Pieces

/-!
# Motions and open lists

A cursor in a balanced buffer stands at a place with some lists open. A motion forward over
an expression closes no list, or it closes the innermost one: that happens where a mark
or junk stands before the closing bracket, which is then taken for the end of an expression. In
the same way a motion back opens no list, or one. Motions over all expressions up to a
bracket do this any number of times.
-/
namespace StructEdit
namespace Cursor

structure Span (c d : Cursor) (ts : List Placed) : Prop where
  behind : d.before.reverse = c.before.reverse ++ ts
  ahead : c.here :: c.after = ts ++ d.here :: d.after

theorem Span.refl (c : Cursor) : Span c c [] := ⟨by simp, rfl⟩

theorem Span.trans {c d e : Cursor} {ts us : List Placed} (h : Span c d ts) (h' : Span d e us) :
    Span c e (ts ++ us) where
  behind := by rw [h'.behind, h.behind, List.append_assoc]
  ahead := by rw [h.ahead, h'.ahead, List.append_assoc]

theorem span_one (before : List Placed) (here n : Placed) (after : List Placed) :
    Span ⟨before, here, n :: after⟩ ⟨here :: before, n, after⟩ [here] := ⟨by simp, rfl⟩

/-- The reader comes to the cursor at the place `p` with `lists` open, and goes on from there to the
end. -/
structure At (c : Cursor) (p : Place) (lists : List Bracket) : Prop where
  before : Phase .code c.before.reverse
  place : Place.code.along c.before.reverse = p
  phase : Phase p (c.here :: c.after)
  opens : nest [] (fencesOf c.before.reverse) = some lists
  closes : nest lists (fencesOf (c.here :: c.after)) = some []
  last : ∀ q, (c.here :: c.after).getLast? = some q → q.kind = .lineEnd
  final : p.along (c.here :: c.after) = .code

variable {c d : Cursor} {p : Place} {lists : List Bracket} {ts : List Placed}

theorem At.ahead (h : c.At p lists) (hs : Span c d ts) :
    ∃ m, nest lists (fencesOf ts) = some m ∧ d.At (p.along ts) m := by
  have hphase := h.phase
  rw [hs.ahead, phase_append] at hphase
  have hcloses := h.closes
  rw [hs.ahead, fencesOf_append] at hcloses
  obtain ⟨m, hm, hrest⟩ := nest_append_eq_some.1 hcloses
  refine ⟨m, hm, ?_, ?_, hphase.2, ?_, hrest, fun q hq => h.last q ?_, ?_⟩
  · rw [hs.behind, phase_append, h.place]
    exact ⟨h.before, hphase.1⟩
  · rw [hs.behind, Place.along_append, h.place]
  · rw [hs.behind, fencesOf_append]
    exact nest_append_eq_some.2 ⟨lists, h.opens, hm⟩
  · rw [hs.ahead, List.getLast?_append, hq]
    rfl
  · rw [← Place.along_append, ← hs.ahead]
    exact h.final

theorem At.behind (h : c.At p lists) (hs : Span d c ts) :
    ∃ q m, d.At q m ∧ q.along ts = p ∧ nest m (fencesOf ts) = some lists := by
  have hbefore := h.before
  rw [hs.behind, phase_append] at hbefore
  have hlists := h.opens
  rw [hs.behind, fencesOf_append] at hlists
  obtain ⟨m, hm, hts⟩ := nest_append_eq_some.1 hlists
  have hplace : (Place.code.along d.before.reverse).along ts = p := by
    rw [← Place.along_append, ← hs.behind, h.place]
  refine ⟨_, m, ⟨hbefore.1, rfl, ?_, hm, ?_, fun q hq => h.last q ?_, ?_⟩, hplace, hts⟩
  · rw [hs.ahead, phase_append, hplace]
    exact ⟨hbefore.2, h.phase⟩
  · rw [hs.ahead, fencesOf_append]
    exact nest_append_eq_some.2 ⟨lists, hts, h.closes⟩
  · rw [hs.ahead, List.getLast?_append] at hq
    have hsome : ((c.here :: c.after).getLast?).isSome = true := by simp
    obtain ⟨x, hx⟩ := Option.isSome_iff_exists.1 hsome
    rw [hx] at hq ⊢
    exact hq
  · rw [hs.ahead, Place.along_append, hplace]
    exact h.final

theorem At.suits (h : c.At p lists) : Suits p c.kind c.raw := h.phase.1

/-- A token that can only be read in code. -/
theorem At.code_of_kind (h : c.At p lists)
    (hk : c.kind ∉ [.stringMiddle, .stringEnd, .junk, .lineEnd]) : p = .code := by
  have hadmits := h.suits.admits
  cases p with
  | code => rfl
  | string =>
    simp only [Place.admits, Bool.or_eq_true, beq_iff_eq] at hadmits
    exact absurd (by simp only [List.mem_cons]; grind) hk
  | comment =>
    simp only [Place.admits, beq_iff_eq] at hadmits
    exact absurd (by simp [hadmits]) hk
  | escape =>
    simp only [Place.admits, beq_iff_eq] at hadmits
    exact absurd (by simp [hadmits]) hk

theorem At.code_of_closing (h : c.At p lists) (hk : c.kind = .closing) : p = .code :=
  h.code_of_kind (by simp [hk])

theorem pass_eq_comment_iff {p : Place} {k : Kind} (h : p.admits k = true) :
    p.pass k = .comment ↔ k = .comment := by
  cases p <;> cases k <;> simp_all [Place.admits, Place.pass]

/-- Right behind a comment, and only there, the reader is in one. -/
theorem At.comment_iff (h : c.At p lists) : p = .comment ↔ c.prevKind = .comment := by
  have hplace := h.place
  have hbefore := h.before
  unfold prevKind
  cases hb : c.before with
  | nil =>
    rw [hb] at hplace
    obtain rfl : Place.code = p := hplace
    simp [kindBefore]
  | cons q qs =>
    rw [hb, List.reverse_cons, Place.along_append] at hplace
    rw [hb, List.reverse_cons, phase_append] at hbefore
    have hadmits := hbefore.2.1.admits
    rw [← hplace]
    exact pass_eq_comment_iff hadmits

/-! ## Skipping blanks -/

theorem fences_of_skipped {comments : Bool} {k : Kind} (h : k.isSkipped comments = true)
    (raw : Text) : k.fences raw = [] := by
  cases k <;> simp_all [Kind.isSkipped, Kind.fences]

theorem fencesOf_skipped {comments : Bool} (h : ∀ q ∈ ts, q.kind.isSkipped comments = true) :
    fencesOf ts = [] := by
  induction ts with
  | nil => rfl
  | cons q ts ih =>
    rw [fencesOf_cons, fences_of_skipped (h q List.mem_cons_self), List.nil_append]
    exact ih fun r hr => h r (List.mem_cons_of_mem _ hr)

/-- Blanks and comments lead neither into a string nor out of one. -/
theorem isFinal_along_skipped {comments : Bool}
    (h : ∀ q ∈ ts, q.kind.isSkipped comments = true) {r : Place} (hphase : Phase r ts) :
    (r.along ts).isFinal = r.isFinal := by
  induction ts generalizing r with
  | nil => rfl
  | cons q ts ih =>
    have hq := h q List.mem_cons_self
    have hadmits := hphase.1.admits
    rw [Place.along_cons, ih (fun x hx => h x (List.mem_cons_of_mem _ hx)) hphase.2]
    cases r <;> cases hk : q.kind <;>
      simp_all [Place.admits, Place.pass, Kind.isSkipped, Place.isFinal]

theorem span_forwardSpace (comments : Bool) (c : Cursor) :
    ∃ ts, Span c (c.forwardSpace comments) ts ∧ ∀ q ∈ ts, q.kind.isSkipped comments = true := by
  obtain ⟨before, here, after⟩ := c
  unfold forwardSpace
  induction after generalizing before here with
  | nil => exact ⟨[], .refl _, by simp⟩
  | cons n after ih =>
    simp only [spaceAhead]
    split
    · rename_i hs
      obtain ⟨ts, hspan, hskip⟩ := ih (here :: before) n
      refine ⟨here :: ts, (span_one before here n after).trans hspan, fun q hq => ?_⟩
      rcases List.mem_cons.1 hq with rfl | hq
      · exact hs
      · exact hskip q hq
    · exact ⟨[], .refl _, by simp⟩

/-- Where blanks end, at the end of the buffer at the latest. -/
theorem forwardSpace_stops (comments : Bool) (c : Cursor) :
    (c.forwardSpace comments).kind.isSkipped comments = false ∨
      (c.forwardSpace comments).after = [] := by
  obtain ⟨before, here, after⟩ := c
  unfold forwardSpace
  induction after generalizing before here with
  | nil => exact Or.inr rfl
  | cons n after ih =>
    simp only [spaceAhead]
    split
    · exact ih (here :: before) n
    · rename_i hs
      exact Or.inl (Bool.eq_false_iff.2 hs)

theorem span_backwardSpace (comments : Bool) (c : Cursor) :
    ∃ ts, Span (c.backwardSpace comments) c ts ∧
      (∀ q ∈ ts, q.kind.isSkipped comments = true) ∧
      ∀ q qs, ts = q :: qs →
        q.kind = .blank ∨ (c.backwardSpace comments).prevKind ≠ .comment := by
  obtain ⟨before, here, after⟩ := c
  unfold backwardSpace
  induction before generalizing here after with
  | nil => exact ⟨[], .refl _, by simp, by simp⟩
  | cons q before ih =>
    simp only [spaceBehind]
    split
    · rename_i hs
      obtain ⟨ts, hspan, hskip, hfirst⟩ := ih q (here :: after)
      refine ⟨ts ++ [q], hspan.trans (span_one before q here after), ?_, ?_⟩
      · intro r hr
        rcases List.mem_append.1 hr with hr | hr
        · exact hskip r hr
        · obtain rfl := List.mem_singleton.1 hr
          rcases hs with hs | ⟨hs, -⟩
          · simp [hs, Kind.isSkipped]
          · exact hs
      · intro r rs hr
        cases ts with
        | nil =>
          have hstay : (spaceBehind comments q (here :: after) before).before = before := by
            have := hspan.behind
            rw [List.append_nil] at this
            exact (List.reverse_inj.1 this).symm
          obtain ⟨rfl, -⟩ := List.cons.inj hr
          rw [prevKind, hstay]
          exact hs.imp id fun h => h.2
        | cons x xs =>
          obtain ⟨rfl, -⟩ := List.cons.inj hr
          exact hfirst x xs rfl
    · exact ⟨[], .refl _, by simp, by simp⟩

/-- A line end is not skipped on the way back when a comment comes before it, so the way back from
code ends in code. -/
theorem At.backwardSpace (h : c.At p lists) (comments : Bool) :
    ∃ q, (c.backwardSpace comments).At q lists ∧ (p = .code → q = .code) ∧
      (comments = true → q ≠ .comment) := by
  obtain ⟨ts, hspan, hskip, hfirst⟩ := span_backwardSpace comments c
  obtain ⟨q, m, hat, halong, hnest⟩ := h.behind hspan
  rw [fencesOf_skipped hskip] at hnest
  obtain rfl := Option.some.inj hnest
  have hts : ∀ x xs, ts = x :: xs → q ≠ .comment := by
    rintro x xs rfl rfl
    have hphase := hat.phase
    rw [hspan.ahead] at hphase
    have hadmits : x.kind = .lineEnd := by simpa [Place.admits] using hphase.1.admits
    rcases hfirst x xs rfl with hb | hb
    · simp [hb] at hadmits
    · exact hb (hat.comment_iff.1 rfl)
  refine ⟨q, hat, ?_, ?_⟩
  · rintro rfl
    cases hts' : ts with
    | nil =>
      rw [hts'] at halong
      exact halong
    | cons x xs =>
      have hne := hts x xs hts'
      have hphase := hat.phase
      rw [hspan.ahead, phase_append] at hphase
      have hfinal := isFinal_along_skipped hskip hphase.1
      rw [halong] at hfinal
      cases q with
      | code => rfl
      | comment => exact absurd rfl hne
      | string => simp [Place.isFinal] at hfinal
      | escape => simp [Place.isFinal] at hfinal
  · rintro rfl rfl
    cases hts' : ts with
    | cons x xs => exact hts x xs hts' rfl
    | nil =>
      rw [hts'] at hspan halong
      obtain rfl : Place.comment = p := halong
      have hprev := h.comment_iff.1 rfl
      obtain ⟨before, here, after⟩ := c
      cases before with
      | nil => simp [prevKind, kindBefore] at hprev
      | cons x before =>
        have hx : x.kind = .comment := hprev
        obtain ⟨r, n, hat', -, -⟩ := h.behind (span_one before x here after)
        have hcode := hat'.code_of_kind (by simp [kind, hx])
        have hbefore : kindBefore before ≠ .comment := by
          rw [hcode] at hat'
          exact fun hb => absurd (hat'.comment_iff.2 hb) (by simp)
        have hmove : Cursor.backwardSpace true ⟨x :: before, here, after⟩ =
            spaceBehind true x (here :: after) before := by
          simp only [Cursor.backwardSpace, spaceBehind]
          rw [if_pos (Or.inr ⟨by simp [hx, Kind.isSkipped], hbefore⟩)]
        have hle := before_spaceBehind_le true x (here :: after) before
        have hlen := congrArg List.length hspan.behind
        rw [hmove] at hlen
        simp only [List.append_nil, List.length_reverse, List.length_cons] at hlen
        omega

/-! ## Forward over expressions -/

theorem fences_opening {q : Placed} {p : Place} (h : Suits p q.kind q.token.raw)
    (hk : q.kind = .opening) : ∃ b, Bracket.ofText? q.token.raw = some b ∧
      q.kind.fences q.token.raw = [.opens b] := by
  obtain ⟨b, hb⟩ := h.paired (Or.inl hk)
  exact ⟨b, hb, by simp [hk, Kind.fences, hb]⟩

theorem fences_closing {q : Placed} {p : Place} (h : Suits p q.kind q.token.raw)
    (hk : q.kind = .closing) : ∃ b, Bracket.ofText? q.token.raw = some b ∧
      q.kind.fences q.token.raw = [.closes b] := by
  obtain ⟨b, hb⟩ := h.paired (Or.inr hk)
  exact ⟨b, hb, by simp [hk, Kind.fences, hb]⟩

theorem fences_other {k : Kind} (ho : k ≠ .opening) (hc : k ≠ .closing) (raw : Text) :
    k.fences raw = [] := by
  cases k <;> simp_all [Kind.fences]

theorem roleAhead_enter {comments : Bool} {k : Kind} (h : k.roleAhead comments = .enter) :
    k = .opening := by
  cases k <;> cases comments <;> simp_all [Kind.roleAhead]

theorem roleAhead_leave {comments : Bool} {k : Kind} (h : k.roleAhead comments = .leave) :
    k = .closing := by
  cases k <;> cases comments <;> simp_all [Kind.roleAhead]

theorem roleAhead_note {comments : Bool} {k : Kind} (h : k.roleAhead comments = .note) :
    k = .comment := by
  cases k <;> cases comments <;> simp_all [Kind.roleAhead]

theorem roleAhead_other {comments : Bool} {k : Kind} (h₁ : k.roleAhead comments ≠ .enter)
    (h₂ : k.roleAhead comments ≠ .leave) (raw : Text) : k.fences raw = [] := by
  refine fences_other ?_ ?_ raw
  · rintro rfl
    exact h₁ rfl
  · rintro rfl
    exact h₂ rfl

/-- The place behind an expression: code, or a comment at the very end. -/
def Ends (p : Place) (c : Cursor) : Prop := p = .code ∨ p = .comment ∧ c.after = []

theorem pass_atom {comments : Bool} {k : Kind} {p : Place} (h : k.roleAhead comments = .atom)
    (hp : p.admits k = true) : p.pass k = .code := by
  cases k <;> cases comments <;> cases p <;>
    simp_all [Kind.roleAhead, Place.admits, Place.pass]

/-- Past a token without fences. -/
theorem At.pass {before : List Placed} {here n : Placed} {after : List Placed}
    (h : At ⟨before, here, n :: after⟩ p lists) (hk : here.kind.fences here.token.raw = []) :
    At ⟨here :: before, n, after⟩ (p.pass here.kind) lists := by
  obtain ⟨m, hm, hat⟩ := h.ahead (span_one before here n after)
  rw [fencesOf_cons, hk] at hm
  obtain rfl := Option.some.inj hm
  exact hat

theorem At.passBack {before : List Placed} {q here : Placed} {after : List Placed}
    (h : At ⟨q :: before, here, after⟩ p lists) (hk : q.kind.fences q.token.raw = []) :
    ∃ r, At ⟨before, q, here :: after⟩ r lists := by
  obtain ⟨r, l, hat, -, hl⟩ := h.behind (span_one before q here after)
  rw [fencesOf_cons, hk] at hl
  obtain rfl := Option.some.inj hl
  exact ⟨r, hat⟩

/-- The tokens close the lists `l`, the outermost of them with the last token. -/
structure Leaves (l : List Bracket) (ts : List Placed) : Prop where
  closes : nest l (fencesOf ts) = some []
  last : ∀ {inner : List Bracket} {b : Bracket}, l = inner ++ [b] →
    ∃ us q, ts = us ++ [q] ∧ q.kind = .closing ∧ nest inner (fencesOf us) = some []

namespace Leaves

variable {l : List Bracket} {here : Placed} {b : Bracket}

theorem nil : Leaves [] [] := ⟨rfl, by simp⟩

theorem pass (h : Leaves l ts) (hk : here.kind.fences here.token.raw = []) :
    Leaves l (here :: ts) where
  closes := by rw [fencesOf_cons, hk, List.nil_append, h.closes]
  last heq := by
    obtain ⟨us, q, rfl, hq, hnest⟩ := h.last heq
    exact ⟨here :: us, q, rfl, hq, by rw [fencesOf_cons, hk, List.nil_append, hnest]⟩

theorem enter (h : Leaves (b :: l) ts) (hk : here.kind.fences here.token.raw = [.opens b]) :
    Leaves l (here :: ts) where
  closes := by
    rw [fencesOf_cons, hk, List.singleton_append, nest_opens]
    exact h.closes
  last {inner _} heq := by
    obtain ⟨us, q, rfl, hq, hnest⟩ := h.last (show b :: _ = (b :: inner) ++ [_] by rw [heq]; rfl)
    refine ⟨here :: us, q, rfl, hq, ?_⟩
    rw [fencesOf_cons, hk, List.singleton_append, nest_opens, hnest]

theorem leave (h : Leaves l ts) (hl : l ≠ [])
    (hk : here.kind.fences here.token.raw = [.closes b]) : Leaves (b :: l) (here :: ts) where
  closes := by
    rw [fencesOf_cons, hk, List.singleton_append, nest_closes_cons]
    exact h.closes
  last {inner _} heq := by
    cases inner with
    | nil => exact absurd (List.cons.inj heq).2 hl
    | cons x inner =>
      obtain ⟨rfl, hrest⟩ := List.cons.inj heq
      obtain ⟨us, q, rfl, hq, hnest⟩ := h.last hrest
      refine ⟨here :: us, q, rfl, hq, ?_⟩
      rw [fencesOf_cons, hk, List.singleton_append, nest_closes_cons, hnest]

theorem one (hc : here.kind = .closing) (hk : here.kind.fences here.token.raw = [.closes b]) :
    Leaves [b] [here] where
  closes := by simp [hk]
  last {inner _} heq := by
    cases inner with
    | nil => exact ⟨[], here, rfl, hc, rfl⟩
    | cons x inner => simp at heq

theorem skip {comments : Bool} {us : List Placed} (h : Leaves l ts)
    (hs : ∀ q ∈ us, q.kind.isSkipped comments = true) : Leaves l (us ++ ts) := by
  induction us with
  | nil => exact h
  | cons q us ih =>
    exact (ih fun r hr => hs r (List.mem_cons_of_mem _ hr)).pass
      (fences_of_skipped (hs q List.mem_cons_self) _)

end Leaves

/-- What a search for the end of an expression passes: with `depth` lists open that it has entered, it
closes these and at most one more. -/
theorem span_sexpAhead (comments : Bool) {depth : Nat} {before : List Placed} {here : Placed}
    {after : List Placed} {p : Place} {entered outer : List Bracket}
    (h : At ⟨before, here, after⟩ p (entered ++ outer)) (hd : entered.length = depth) :
    ∃ ts l, Span ⟨before, here, after⟩ (sexpAhead comments depth before here after).cursor ts ∧
      l.length ≤ 1 ∧
      (0 < depth → l = [] ∧ (sexpAhead comments depth before here after).found = true) ∧
      Leaves (entered ++ l) ts ∧
      Ends (p.along ts) (sexpAhead comments depth before here after).cursor := by
  fun_induction sexpAhead comments depth before here after generalizing p entered outer with
  | case1 depth before here =>
    have hend : here.kind = .lineEnd := h.last here rfl
    have hcloses := h.closes
    rw [fencesOf_cons, fences_other (by simp [hend]) (by simp [hend])] at hcloses
    obtain rfl := (List.append_eq_nil_iff.1 (Option.some.inj hcloses)).1
    have hfinal : p.pass here.kind = .code := h.final
    rw [hend] at hfinal
    have hends : Ends p ⟨before, here, []⟩ := by
      cases p <;> first | exact Or.inl rfl | exact Or.inr ⟨rfl, rfl⟩ | simp [Place.pass] at hfinal
    refine ⟨[], [], .refl _, by simp, fun hpos => ?_, .nil, hends⟩
    rw [← hd] at hpos
    exact absurd hpos (Nat.lt_irrefl 0)
  | case2 depth before here n after hr ih =>
    have hnone : here.kind.fences here.token.raw = [] :=
      roleAhead_other (by rw [hr]; simp) (by rw [hr]; simp) _
    obtain ⟨ts, l, hspan, hl, hz, hleaves, hplace⟩ := ih (h.pass hnone) hd
    exact ⟨here :: ts, l, (span_one before here n after).trans hspan, hl, hz, hleaves.pass hnone,
      hplace⟩
  | case3 depth before here n after hr ih =>
    obtain ⟨b, -, hopen⟩ := fences_opening h.suits (roleAhead_enter hr)
    obtain ⟨m, hm, hat⟩ := h.ahead (span_one before here n after)
    rw [fencesOf_cons, hopen] at hm
    obtain rfl : b :: (entered ++ outer) = m := Option.some.inj hm
    have hinside : At _ _ ((b :: entered) ++ outer) := hat
    obtain ⟨ts, l, hspan, hl, hz, hleaves, hplace⟩ := ih hinside (by simp [hd])
    exact ⟨here :: ts, l, (span_one before here n after).trans hspan, hl,
      fun _ => hz (Nat.succ_pos _), hleaves.enter hopen, hplace⟩
  | case4 depth before here n after hr hle =>
    have hclosing := roleAhead_leave hr
    obtain ⟨b, -, hclose⟩ := fences_closing h.suits hclosing
    have hcode := h.code_of_closing hclosing
    have hcloses := h.closes
    rw [fencesOf_cons, hclose, List.singleton_append] at hcloses
    obtain ⟨rest, heq, -⟩ := nest_closes_eq_some.1 hcloses
    have hends : Ends (p.along [here]) ⟨here :: before, n, after⟩ := by
      left
      subst hcode
      show Place.code.pass here.kind = .code
      rw [hclosing]
      rfl
    have hone := Leaves.one hclosing hclose
    cases entered with
    | nil =>
      refine ⟨[here], [b], span_one before here n after, by simp, fun hpos => ?_, hone, hends⟩
      rw [← hd] at hpos
      exact absurd hpos (Nat.lt_irrefl 0)
    | cons x xs =>
      obtain ⟨rfl, -⟩ := List.cons.inj heq
      obtain rfl : xs = [] := by
        rw [← List.length_eq_zero_iff]
        simp only [List.length_cons] at hd
        omega
      exact ⟨[here], [], span_one before here n after, by simp, fun _ => ⟨rfl, rfl⟩, hone, hends⟩
  | case5 depth before here n after hr hgt ih =>
    obtain ⟨b, -, hclose⟩ := fences_closing h.suits (roleAhead_leave hr)
    obtain ⟨m, hm, hat⟩ := h.ahead (span_one before here n after)
    rw [fencesOf_cons, hclose, List.singleton_append] at hm
    obtain ⟨rest, heq, hrest⟩ := nest_closes_eq_some.1 hm
    cases entered with
    | nil => simp at hd; omega
    | cons x xs =>
      obtain ⟨rfl, rfl⟩ := List.cons.inj heq
      obtain rfl := Option.some.inj hrest
      have hxs : xs.length = depth - 1 := by simp at hd; omega
      obtain ⟨ts, l, hspan, hl, hz, hleaves, hplace⟩ := ih hat hxs
      have hne : xs ++ l ≠ [] := by
        intro hnil
        rw [(List.append_eq_nil_iff.1 hnil).1, List.length_nil] at hxs
        omega
      exact ⟨here :: ts, l, (span_one before here n after).trans hspan, hl,
        fun _ => hz (by omega), hleaves.leave hne hclose, hplace⟩
  | case6 before here n after hr =>
    obtain rfl : entered = [] := List.length_eq_zero_iff.1 hd
    have hnone : here.kind.fences here.token.raw = [] :=
      roleAhead_other (by rw [hr]; simp) (by rw [hr]; simp) _
    refine ⟨[here], [], span_one before here n after, by simp, fun _ => ⟨rfl, rfl⟩,
      Leaves.nil.pass hnone, Or.inl ?_⟩
    exact pass_atom hr h.suits.admits
  | case7 depth before here n after hr hne ih =>
    have hnone : here.kind.fences here.token.raw = [] :=
      roleAhead_other (by rw [hr]; simp) (by rw [hr]; simp) _
    obtain ⟨ts, l, hspan, hl, hz, hleaves, hplace⟩ := ih (h.pass hnone) hd
    exact ⟨here :: ts, l, (span_one before here n after).trans hspan, hl, hz, hleaves.pass hnone,
      hplace⟩
  | case8 before here n after hr =>
    obtain rfl : entered = [] := List.length_eq_zero_iff.1 hd
    have hk := roleAhead_note hr
    have hnone : here.kind.fences here.token.raw = [] := by simp [hk, Kind.fences]
    have hpass : p.pass here.kind = .comment := by
      rw [hk]
      cases p <;> rfl
    have hn : n.kind = .lineEnd := by
      have hadmits : (p.pass here.kind).admits n.kind = true := (h.pass hnone).suits.admits
      rw [hpass] at hadmits
      simpa [Place.admits] using hadmits
    cases after with
    | nil =>
      exact ⟨[here], [], span_one before here n [], by simp, fun _ => ⟨rfl, rfl⟩,
        Leaves.nil.pass hnone, Or.inr ⟨hpass, rfl⟩⟩
    | cons x xs =>
      have hnone' : n.kind.fences n.token.raw = [] := by simp [hn, Kind.fences]
      refine ⟨[here, n], [], (span_one before here n (x :: xs)).trans (span_one _ n x xs),
        by simp, fun _ => ⟨rfl, rfl⟩, (Leaves.nil.pass hnone').pass hnone, Or.inl ?_⟩
      show (p.pass here.kind).pass n.kind = .code
      rw [hpass, hn]
      rfl
  | case9 depth before here n after hr hne ih =>
    have hnone : here.kind.fences here.token.raw = [] :=
      roleAhead_other (by rw [hr]; simp) (by rw [hr]; simp) _
    obtain ⟨ts, l, hspan, hl, hz, hleaves, hplace⟩ := ih (h.pass hnone) hd
    exact ⟨here :: ts, l, (span_one before here n after).trans hspan, hl, hz, hleaves.pass hnone,
      hplace⟩

theorem At.forwardSpace (h : c.At p lists) (comments : Bool) :
    ∃ ts, Span c (c.forwardSpace comments) ts ∧ (∀ q ∈ ts, q.kind.isSkipped comments = true) ∧
      (c.forwardSpace comments).At (p.along ts) lists := by
  obtain ⟨ts, hspan, hskip⟩ := span_forwardSpace comments c
  obtain ⟨m, hm, hat⟩ := h.ahead hspan
  rw [fencesOf_skipped hskip] at hm
  obtain rfl := Option.some.inj hm
  exact ⟨ts, hspan, hskip, hat⟩

/-- A motion over an expression closes at most one list, and that at its end. -/
theorem At.forwardSexp (h : c.At p lists) (comments : Bool) :
    ∃ ts l, Span c (c.forwardSexp comments).cursor ts ∧ l.length ≤ 1 ∧ Leaves l ts ∧
      Ends (p.along ts) (c.forwardSexp comments).cursor := by
  obtain ⟨us, hspan, hskip, hat⟩ := h.forwardSpace comments
  simp only [Cursor.forwardSexp]
  split
  · rename_i hk
    have hleaves := Leaves.nil.skip hskip
    rw [List.append_nil] at hleaves
    exact ⟨us, [], hspan, by simp, hleaves, Or.inl (hat.code_of_closing hk)⟩
  · have hat' : At ⟨(c.forwardSpace comments).before, (c.forwardSpace comments).here,
        (c.forwardSpace comments).after⟩ (p.along us) ([] ++ lists) := hat
    obtain ⟨ts, l, hspan', hl, -, hleaves, hends⟩ := span_sexpAhead comments hat' rfl
    refine ⟨us ++ ts, l, hspan.trans hspan', hl, hleaves.skip hskip, ?_⟩
    rw [Place.along_append]
    exact hends

/-- Where a list is left, the reader is in code. -/
theorem At.code_of_leaves {l : List Bracket} (h : c.At p lists) (hs : Span c d ts)
    (hl : Leaves l ts) (hne : l ≠ []) : p.along ts = .code := by
  obtain ⟨us, q, rfl, hq, -⟩ := hl.last (List.dropLast_concat_getLast hne).symm
  have hphase := h.phase
  rw [hs.ahead, phase_append, phase_append] at hphase
  have hadmits := hphase.1.2.1.admits
  rw [Place.along_append]
  show (p.along us).pass q.kind = .code
  rw [hq] at hadmits ⊢
  generalize p.along us = r at hadmits
  cases r <;> simp_all [Place.admits, Place.pass]

/-- Behind an expression, or a comment with its line end, there is no blank to skip. -/
theorem backwardSpace_sexpAhead {depth : Nat} {before : List Placed} {here : Placed}
    {after : List Placed} (hphase : Phase p (here :: after))
    (hf : (sexpAhead false depth before here after).found = true) :
    (sexpAhead false depth before here after).cursor.backwardSpace false =
      (sexpAhead false depth before here after).cursor := by
  have hstay : ∀ (q x : Placed) (qs xs : List Placed), q.kind ≠ .blank →
      (q.kind.isSkipped false = false ∨ kindBefore qs = .comment) →
      Cursor.backwardSpace false ⟨q :: qs, x, xs⟩ = ⟨q :: qs, x, xs⟩ := by
    intro q x qs xs hblank hskip
    simp only [Cursor.backwardSpace, spaceBehind]
    rw [if_neg]
    rintro (hb | ⟨hs, hc⟩)
    · exact hblank hb
    · rcases hskip with hskip | hskip
      · simp [hskip] at hs
      · exact hc hskip
  fun_induction sexpAhead false depth before here after generalizing p with
  | case1 => simp at hf
  | case2 _ _ _ _ _ _ ih => exact ih hphase.2 hf
  | case3 _ _ _ _ _ _ ih => exact ih hphase.2 hf
  | case4 _ _ here _ _ hr =>
    have hk := roleAhead_leave hr
    exact hstay _ _ _ _ (by simp [hk]) (Or.inl (by simp [hk, Kind.isSkipped]))
  | case5 _ _ _ _ _ _ _ ih => exact ih hphase.2 hf
  | case6 _ here _ _ hr =>
    refine hstay _ _ _ _ ?_ (Or.inl ?_) <;>
      cases hk : here.kind <;> simp_all [Kind.roleAhead, Kind.isSkipped]
  | case7 _ _ _ _ _ _ _ ih => exact ih hphase.2 hf
  | case8 before here n after hr =>
    have hk := roleAhead_note hr
    have hn : n.kind = .lineEnd := by
      have hadmits := hphase.2.1.admits
      rw [hk] at hadmits
      cases p <;> simpa [Place.pass, Place.admits] using hadmits
    cases after with
    | nil => exact hstay _ _ _ _ (by simp [hk]) (Or.inl (by simp [hk, Kind.isSkipped]))
    | cons x xs => exact hstay _ _ _ _ (by simp [hn]) (Or.inr hk)
  | case9 _ _ _ _ _ _ _ ih => exact ih hphase.2 hf

theorem At.backwardSpace_forwardSexp (h : c.At p lists)
    (hf : (c.forwardSexp false).found = true) :
    (c.forwardSexp false).cursor.backwardSpace false = (c.forwardSexp false).cursor := by
  obtain ⟨ts, -, -, hat⟩ := h.forwardSpace false
  simp only [Cursor.forwardSexp] at hf ⊢
  split at hf
  · simp at hf
  · rename_i hk
    rw [if_neg hk]
    exact backwardSpace_sexpAhead hat.phase hf

/-- From an opening bracket, a motion over an expression leads behind its partner. -/
theorem At.forwardSexp_opening (h : c.At p lists) (hk : c.kind = .opening) (comments : Bool) :
    (c.forwardSexp comments).found = true ∧
      ∃ us q, Span c (c.forwardSexp comments).cursor (c.here :: us ++ [q]) ∧ q.kind = .closing ∧
        nest [] (fencesOf us) = some [] := by
  obtain ⟨before, here, after⟩ := c
  have hstay : Cursor.forwardSpace comments ⟨before, here, after⟩ = ⟨before, here, after⟩ :=
    forwardSpace_of_not_skipped (by rw [hk]; rfl)
  have hopening : here.kind = .opening := hk
  cases after with
  | nil =>
    have hlast := h.last here rfl
    rw [hopening] at hlast
    simp at hlast
  | cons n after =>
    obtain ⟨b, -, hopen⟩ := fences_opening h.suits hk
    obtain ⟨m, hm, hat⟩ := h.ahead (span_one before here n after)
    rw [fencesOf_cons, hopen] at hm
    obtain rfl : b :: lists = m := Option.some.inj hm
    have hinside : At _ _ ([b] ++ lists) := hat
    obtain ⟨ts, l, hspan, -, hz, hleaves, -⟩ := span_sexpAhead comments hinside rfl
    obtain ⟨rfl, hfound⟩ := hz Nat.one_pos
    obtain ⟨us, q, rfl, hq, hnest⟩ := hleaves.last (show [b] ++ [] = [] ++ [b] from rfl)
    have hmove : Cursor.forwardSexp comments ⟨before, here, n :: after⟩ =
        sexpAhead comments 1 (here :: before) n after := by
      have hne : Cursor.kind ⟨before, here, n :: after⟩ ≠ .closing := by simp [hk]
      simp only [Cursor.forwardSexp, hstay, if_neg hne, sexpAhead, hopening, Kind.roleAhead]
    rw [hmove]
    exact ⟨hfound, us, q, (span_one before here n after).trans hspan, hq, hnest⟩

/-- A motion over expressions closes the lists that it leaves. -/
theorem At.forwardSexps (h : c.At p lists) (comments : Bool) :
    ∃ ts l, Span c (c.forwardSexps comments) ts ∧ nest l (fencesOf ts) = some [] := by
  fun_induction Cursor.forwardSexps comments c generalizing p lists with
  | case1 c _ _ ih =>
    obtain ⟨ts, l, hspan, -, hleaves, -⟩ := h.forwardSexp comments
    obtain ⟨m, -, hat⟩ := h.ahead hspan
    obtain ⟨us, l', hspan', hnest'⟩ := ih hat
    refine ⟨ts ++ us, l ++ l', hspan.trans hspan', ?_⟩
    rw [fencesOf_append]
    exact nest_append_eq_some.2 ⟨l', nest_frame hleaves.closes l', hnest'⟩
  | case2 c _ =>
    obtain ⟨ts, l, hspan, -, hleaves, -⟩ := h.forwardSexp comments
    exact ⟨ts, l, hspan, hleaves.closes⟩

theorem At.forwardList? (h : c.At p lists) (hd : c.forwardList? = some d) :
    ∃ ts l, Span c d ts ∧ nest l (fencesOf ts) = some [] :=
  (forwardList?_eq_some hd).1 ▸ h.forwardSexps true

/-! ## Back over expressions -/

theorem roleBehind_enter {comments : Bool} {k : Kind} (h : k.roleBehind comments = .enter) :
    k = .closing := by
  cases k <;> cases comments <;> simp_all [Kind.roleBehind]

theorem roleBehind_leave {comments : Bool} {k : Kind} (h : k.roleBehind comments = .leave) :
    k = .opening := by
  cases k <;> cases comments <;> simp_all [Kind.roleBehind]

theorem roleBehind_other {comments : Bool} {k : Kind} (h₁ : k.roleBehind comments ≠ .enter)
    (h₂ : k.roleBehind comments ≠ .leave) (raw : Text) : k.fences raw = [] := by
  refine fences_other ?_ ?_ raw
  · rintro rfl
    exact h₂ rfl
  · rintro rfl
    exact h₁ rfl

/-- What a search for the start of an expression passes: it opens the lists that it has entered from
behind, and at most one more. -/
theorem span_sexpBehind (comments : Bool) {depth : Nat} {here : Placed}
    {after before : List Placed} {p : Place} {entered outer : List Bracket}
    (h : At ⟨before, here, after⟩ p (entered ++ outer)) (hd : entered.length = depth) :
    ∃ ts m, Span (sexpBehind comments depth here after before).cursor ⟨before, here, after⟩ ts ∧
      m.length ≤ 1 ∧ nest [] (fencesOf ts) = some (entered ++ m) := by
  fun_induction sexpBehind comments depth here after before generalizing p entered outer with
  | case1 depth here after =>
    have hnil := Option.some.inj h.opens
    obtain rfl := (List.append_eq_nil_iff.1 hnil.symm).1
    exact ⟨[], [], .refl _, by simp, rfl⟩
  | case2 depth here after q before hr ih =>
    have hnone : q.kind.fences q.token.raw = [] :=
      roleBehind_other (by rw [hr]; simp) (by rw [hr]; simp) _
    obtain ⟨r, hat⟩ := h.passBack hnone
    obtain ⟨ts, m, hspan, hm, hnest⟩ := ih hat hd
    refine ⟨ts ++ [q], m, hspan.trans (span_one before q here after), hm, ?_⟩
    rw [fencesOf_append, fencesOf_cons, hnone]
    simpa using hnest
  | case3 depth here after q before hr ih =>
    obtain ⟨r, l, hat, -, hl⟩ := h.behind (span_one before q here after)
    obtain ⟨b, -, hclose⟩ := fences_closing hat.suits (roleBehind_enter hr)
    rw [fencesOf_cons, hclose] at hl
    obtain ⟨rest, rfl, hrest⟩ := nest_closes_eq_some.1 hl
    obtain rfl := Option.some.inj hrest
    have hinside : At _ _ ((b :: entered) ++ outer) := hat
    obtain ⟨ts, m, hspan, hm, hnest⟩ := ih hinside (by simp [hd])
    refine ⟨ts ++ [q], m, hspan.trans (span_one before q here after), hm, ?_⟩
    rw [fencesOf_append, fencesOf_cons, hclose, nest_append_eq_some]
    exact ⟨_, hnest, by simp⟩
  | case4 depth here after q before hr hle =>
    obtain ⟨r, l, hat, -, hl⟩ := h.behind (span_one before q here after)
    obtain ⟨b, -, hopen⟩ := fences_opening hat.suits (roleBehind_leave hr)
    rw [fencesOf_cons, hopen] at hl
    have heq : b :: l = entered ++ outer := Option.some.inj hl
    cases entered with
    | nil => exact ⟨[q], [b], span_one before q here after, by simp, by simp [hopen]⟩
    | cons x xs =>
      obtain ⟨rfl, -⟩ := List.cons.inj heq
      obtain rfl : xs = [] := by
        rw [← List.length_eq_zero_iff]
        simp only [List.length_cons] at hd
        omega
      exact ⟨[q], [], span_one before q here after, by simp, by simp [hopen]⟩
  | case5 depth here after q before hr hgt ih =>
    obtain ⟨r, l, hat, -, hl⟩ := h.behind (span_one before q here after)
    obtain ⟨b, -, hopen⟩ := fences_opening hat.suits (roleBehind_leave hr)
    rw [fencesOf_cons, hopen] at hl
    have heq : b :: l = entered ++ outer := Option.some.inj hl
    cases entered with
    | nil => simp at hd; omega
    | cons x xs =>
      obtain ⟨rfl, rfl⟩ := List.cons.inj heq
      obtain ⟨ts, m, hspan, hm, hnest⟩ := ih hat (by simp at hd; omega)
      refine ⟨ts ++ [q], m, hspan.trans (span_one before q here after), hm, ?_⟩
      rw [fencesOf_append, fencesOf_cons, hopen, nest_append_eq_some]
      exact ⟨_, hnest, rfl⟩
  | case6 here after q before hr =>
    obtain rfl : entered = [] := List.length_eq_zero_iff.1 hd
    have hnone : q.kind.fences q.token.raw = [] :=
      roleBehind_other (by rw [hr]; simp) (by rw [hr]; simp) _
    exact ⟨[q], [], span_one before q here after, by simp, by simp [hnone]⟩
  | case7 depth here after q before hr hne ih =>
    have hnone : q.kind.fences q.token.raw = [] :=
      roleBehind_other (by rw [hr]; simp) (by rw [hr]; simp) _
    obtain ⟨r, hat⟩ := h.passBack hnone
    obtain ⟨ts, m, hspan, hm, hnest⟩ := ih hat hd
    refine ⟨ts ++ [q], m, hspan.trans (span_one before q here after), hm, ?_⟩
    rw [fencesOf_append, fencesOf_cons, hnone]
    simpa using hnest
  | case8 here after q before hr =>
    obtain rfl : entered = [] := List.length_eq_zero_iff.1 hd
    have hnone : q.kind.fences q.token.raw = [] :=
      roleBehind_other (by rw [hr]; simp) (by rw [hr]; simp) _
    exact ⟨[q], [], span_one before q here after, by simp, by simp [hnone]⟩
  | case9 depth here after q before hr hne ih =>
    have hnone : q.kind.fences q.token.raw = [] :=
      roleBehind_other (by rw [hr]; simp) (by rw [hr]; simp) _
    obtain ⟨r, hat⟩ := h.passBack hnone
    obtain ⟨ts, m, hspan, hm, hnest⟩ := ih hat hd
    refine ⟨ts ++ [q], m, hspan.trans (span_one before q here after), hm, ?_⟩
    rw [fencesOf_append, fencesOf_cons, hnone]
    simpa using hnest

/-- A motion back over an expression opens at most one list, and that at its start. -/
theorem At.backwardSexp (h : c.At p lists) (comments : Bool) :
    ∃ ts m, Span (c.backwardSexp comments).cursor c ts ∧ m.length ≤ 1 ∧
      nest [] (fencesOf ts) = some m := by
  obtain ⟨us, hspan, hskip, -⟩ := span_backwardSpace comments c
  obtain ⟨q, l, hat, -, -⟩ := h.behind hspan
  have hnone := fencesOf_skipped hskip
  simp only [Cursor.backwardSexp]
  split
  · exact ⟨us, [], hspan, by simp, by rw [hnone]; rfl⟩
  · have hat' : At ⟨(c.backwardSpace comments).before, (c.backwardSpace comments).here,
        (c.backwardSpace comments).after⟩ q ([] ++ l) := hat
    obtain ⟨ts, m, hspan', hm, hnest⟩ := span_sexpBehind comments hat' rfl
    refine ⟨ts ++ us, m, hspan'.trans hspan, hm, ?_⟩
    rw [fencesOf_append, hnone, List.append_nil]
    exact hnest

/-- A motion back over expressions opens the lists that it leaves. -/
theorem At.backwardSexps (h : c.At p lists) (comments : Bool) :
    ∃ ts m, Span (c.backwardSexps comments) c ts ∧ nest [] (fencesOf ts) = some m := by
  fun_induction Cursor.backwardSexps comments c generalizing p lists with
  | case1 c _ _ ih =>
    obtain ⟨ts, m, hspan, -, hnest⟩ := h.backwardSexp comments
    obtain ⟨q, l, hat, -, -⟩ := h.behind hspan
    obtain ⟨us, m', hspan', hnest'⟩ := ih hat
    refine ⟨us ++ ts, m ++ m', hspan'.trans hspan, ?_⟩
    rw [fencesOf_append]
    exact nest_append_eq_some.2 ⟨m', hnest', nest_frame hnest m'⟩
  | case2 c _ =>
    obtain ⟨ts, m, hspan, -, hnest⟩ := h.backwardSexp comments
    exact ⟨ts, m, hspan, hnest⟩

theorem At.backwardList? (h : c.At p lists) (hd : c.backwardList? = some d) :
    ∃ ts m, Span d c ts ∧ nest [] (fencesOf ts) = some m :=
  (backwardList?_eq_some hd).1 ▸ h.backwardSexps false

end Cursor
end StructEdit
