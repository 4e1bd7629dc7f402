import StructEdit.Proofs.Cursor.Duality

/-!
# Out of a list inside a list

From a place in a list, one motion leads back to its opening bracket and another forward to a
closing bracket. From that opening bracket, a third leads out of the list around it. Nothing says
that the brackets match, and where marks or junk stand before a closing bracket the motions go past
the end of their lists. Still the second motion never comes out behind the third.

The depth along the tokens tells why. On the way back the motion passes no closing bracket whose
opening bracket it has not passed as well, so the place that it came from lies before the bracket
that brings the depth down below the opening bracket where it stops. And on the way forward, a
motion that passes that bracket stops right behind it, where the third motion comes by.
-/
namespace StructEdit

/-! ## Heights -/

/-- What the tokens add to the depth. -/
def height : List Placed → Int
  | [] => 0
  | q :: ts => q.kind.ahead + height ts

/-- Along the tokens the depth never falls below where it was before them. -/
def Rises (ts : List Placed) : Prop := ∀ us, us <+: ts → 0 ≤ height us

section Heights

variable {q : Placed} {ts us : List Placed} {n : Int}

@[simp] theorem height_nil : height [] = 0 := rfl

@[simp] theorem height_cons (q : Placed) (ts : List Placed) :
    height (q :: ts) = q.kind.ahead + height ts := rfl

@[simp] theorem height_append (ts us : List Placed) : height (ts ++ us) = height ts + height us := by
  induction ts with
  | nil => simp
  | cons q ts ih => rw [List.cons_append, height_cons, height_cons, ih, Int.add_assoc]

theorem Level.add_height (h : Level Kind.ahead n ts) : n + height ts = 0 := by
  induction ts generalizing n with
  | nil =>
    obtain rfl : n = 0 := h
    rfl
  | cons q ts ih =>
    rw [height_cons, ← Int.add_assoc]
    exact ih h.2

theorem Level.add_height_of_prefix (h : Level Kind.ahead n ts) (hn : 0 ≤ n) (hus : us <+: ts) :
    0 ≤ n + height us := by
  induction ts generalizing n us with
  | nil =>
    obtain rfl := List.prefix_nil.1 hus
    simpa using hn
  | cons q ts ih =>
    rcases List.prefix_cons_iff.1 hus with rfl | ⟨vs, rfl, hvs⟩
    · simpa using hn
    · rw [height_cons, ← Int.add_assoc]
      exact ih h.2 h.1 hvs

theorem Level.rises (h : Level Kind.ahead 0 ts) : Rises ts := by
  intro us hus
  have := h.add_height_of_prefix (Int.le_refl 0) hus
  omega

theorem Rises.append (h : Rises ts) (h' : Rises us) : Rises (ts ++ us) := by
  intro ws hws
  rcases List.prefix_or_prefix_of_prefix hws (List.prefix_append ts us) with hts | ⟨vs, rfl⟩
  · exact h ws hts
  · have hvs := h' vs ((List.prefix_append_right_inj ts).1 hws)
    have := h ts (List.prefix_refl ts)
    rw [height_append]
    omega

theorem rises_of_flat (h : ∀ q ∈ ts, q.kind.ahead = 0) : Rises ts := by
  rintro us ⟨vs, rfl⟩
  have hzero : height us = 0 := by
    induction us with
    | nil => rfl
    | cons q us ih =>
      rw [height_cons, h q List.mem_cons_self, Int.zero_add]
      exact ih fun r hr => h r (List.mem_cons_of_mem q hr)
  exact Int.le_of_eq hzero.symm

theorem rises_one (h : q.kind ≠ .closing) : Rises [q] := by
  intro us hus
  rcases List.prefix_cons_iff.1 hus with rfl | ⟨vs, rfl, hvs⟩
  · simp
  · obtain rfl := List.prefix_nil.1 hvs
    rw [height_cons, height_nil]
    revert h
    cases q.kind <;> decide

/-- An expression that a search goes over on the way back opens what it closes. So does a bracket
alone, which the search takes for an expression behind a mark. -/
theorem Search.rises {comments : Bool} (h : Search (Kind.roleBehind comments) 0 ts) :
    Rises ts.reverse := by
  obtain ⟨us, q, rest, rfl, hus, -, hq⟩ := h.split
  have hpassed : Rises us.reverse := by
    refine rises_of_flat fun r hr => ?_
    have hpass := hus r (List.mem_reverse.1 hr)
    revert hpass
    cases comments <;> cases r.kind <;> decide
  rw [List.reverse_append]
  refine Rises.append ?_ hpassed
  rcases hq with ⟨henter, hcloses⟩ | ⟨hother, rfl⟩
  · have hlevel : Level Kind.behind 0 (q :: rest) := by
      rw [← funext (weight_roleBehind comments)]
      simpa [Level, henter, Role.weight] using hcloses.level
    exact (hlevel.reverse fun _ => (Int.neg_neg _).symm).rises
  · exact rises_one fun hclosing => hother (by rw [hclosing]; rfl)

end Heights

namespace Cursor

variable {b : Buffer} {c d o m inside : Cursor} {comments : Bool} {p : Placed}
  {ts us : List Placed}

/-! ## Back to the opening bracket -/

theorem sexpBehind_not_found {depth : Nat} {here : Placed} {after before : List Placed}
    (h : (sexpBehind comments depth here after before).found = false) :
    (sexpBehind comments depth here after before).cursor.before = [] := by
  fun_induction sexpBehind comments depth here after before with
  | case1 => rfl
  | case2 _ _ _ _ _ _ ih => exact ih h
  | case3 _ _ _ _ _ _ ih => exact ih h
  | case4 => simp at h
  | case5 _ _ _ _ _ _ _ ih => exact ih h
  | case6 => simp at h
  | case7 _ _ _ _ _ _ _ ih => exact ih h
  | case8 => simp at h
  | case9 _ _ _ _ _ _ _ ih => exact ih h

theorem rises_backwardSpace (comments : Bool) (c : Cursor) :
    ∃ ts, Span (c.backwardSpace comments) c ts ∧ Rises ts := by
  obtain ⟨ts, hspan, hskip, -⟩ := span_backwardSpace comments c
  exact ⟨ts, hspan, rises_of_flat fun q hq => ahead_of_skipped (hskip q hq)⟩

theorem rises_backwardSexps (h : (c.backwardSexps comments).prevKind = .opening) :
    ∃ ts, Span (c.backwardSexps comments) c ts ∧ Rises ts := by
  obtain ⟨us, hspan, hus⟩ := rises_backwardSpace comments c
  fun_induction Cursor.backwardSexps comments c generalizing us with
  | case1 c hf _ ih =>
    obtain ⟨vs, hspan', hvs⟩ := rises_backwardSpace comments (c.backwardSexp comments).cursor
    obtain ⟨ws, hrest, hws⟩ := ih h vs hspan' hvs
    have hmove := backwardSexp_of_found hf
    rw [hmove] at hf
    obtain ⟨ts, hsearch, hmoved⟩ := search_sexpBehind hf
    rw [← hmove] at hmoved
    exact ⟨ws ++ (ts.reverse ++ us), hrest.trans (hmoved.trans hspan),
      hws.append (hsearch.rises.append hus)⟩
  | case2 c hf =>
    simp only [Cursor.backwardSexp] at hf h ⊢
    split at hf
    · rename_i hk
      rw [if_pos hk]
      exact ⟨us, hspan, hus⟩
    · rename_i hk
      rw [if_neg hk, prevKind, sexpBehind_not_found (Bool.eq_false_iff.2 hf)] at h
      simp [kindBefore] at h

/-! ## The bracket that ends the list -/

/-- The cursor stands among the tokens `us` of a list or on the bracket `p` that ends it; behind the
bracket stands `m`. -/
def Among (us : List Placed) (p : Placed) (m c : Cursor) : Prop :=
  ∃ ts vs, us = ts ++ vs ∧ Span c m (vs ++ [p])

theorem Among.before_length_lt (h : Among us p m c) : c.before.length < m.before.length := by
  obtain ⟨ts, vs, -, hspan⟩ := h
  rw [hspan.before_eq, List.length_append, List.length_reverse, List.length_append,
    List.length_singleton]
  omega

/-- From an opening bracket, a motion that finds an expression leads behind the bracket that ends the
list. -/
theorem In.closes_forwardSexp (hp : Phase .code b.placed) (h : o.In b) (hk : o.kind = .opening)
    (hf : (o.forwardSexp true).found = true) :
    ∃ us p, Span o (o.forwardSexp true).cursor (o.here :: (us ++ [p])) ∧ p.kind = .closing ∧
      Level Kind.ahead 0 us := by
  obtain ⟨ts, hexpr, hspan⟩ := h.expression_ahead hp (by rw [hk]; rfl) hf
  have hhead : ∀ q rest, ts = q :: rest → q = o.here := by
    rintro q rest rfl
    exact (List.cons.inj hspan.ahead).1.symm
  cases hexpr with
  | atom hq =>
    rw [hhead _ _ rfl] at hq
    change o.kind.isAtom = true at hq
    simp [hk, Kind.isAtom] at hq
  | string hq _ _ =>
    rw [hhead _ _ rfl] at hq
    exact absurd (hk.symm.trans hq) (by simp)
  | @list q z us hq hus hz =>
    obtain rfl := hhead _ _ rfl
    exact ⟨us, z, hspan, hz, hus⟩

theorem Among.cases (h : Among us p m c) (hspan : Span c d ts) :
    Among us p m d ∨ ∃ vs ws, us = vs ++ ws ∧ Span c m (ws ++ [p]) ∧ ws ++ [p] <+: ts := by
  obtain ⟨vs, ws, rfl, hend⟩ := h
  have heq : ts ++ d.here :: d.after = ws ++ [p] ++ m.here :: m.after :=
    hspan.ahead.symm.trans hend.ahead
  rcases List.prefix_or_prefix_of_prefix (heq ▸ List.prefix_append ts _)
    (List.prefix_append (ws ++ [p]) _) with h | h
  · rcases List.prefix_concat_iff.1 h with rfl | ⟨xs, rfl⟩
    · exact Or.inr ⟨vs, ws, rfl, hend, List.prefix_refl _⟩
    · refine Or.inl ⟨vs ++ ts, xs, (List.append_assoc _ _ _).symm, ?_, ?_⟩
      · rw [hend.behind, hspan.behind]
        simp
      · simpa using heq
  · exact Or.inr ⟨vs, ws, rfl, hend, h⟩

section List

variable (hp : p.kind = .closing) (hus : Level Kind.ahead 0 us)
include hp hus

/-- A way that never falls does not lead past the bracket. -/
theorem Among.of_rises (h : Among us p m c) (hspan : Span c d ts) (hts : Rises ts) :
    Among us p m d := by
  refine (h.cases hspan).resolve_right ?_
  rintro ⟨vs, ws, rfl, -, hinit⟩
  have hfirst := hus.rises vs (List.prefix_append vs ws)
  have hall := hus.add_height
  have hrises := hts _ hinit
  rw [height_append] at hall
  rw [height_append, height_cons, height_nil, hp, Kind.ahead] at hrises
  omega

/-- A motion over an expression stays in the list or leads right behind it. -/
theorem Among.forwardSexp (h : Among us p m c) {q : Place} (hphase : Phase q (c.here :: c.after))
    (hf : (c.forwardSexp true).found = true) :
    Among us p m (c.forwardSexp true).cursor ∨ (c.forwardSexp true).cursor = m := by
  obtain ⟨xs, hblanks, hskip⟩ := span_forwardSpace true c
  have hbehind : Phase (q.along xs)
      ((c.forwardSpace true).here :: (c.forwardSpace true).after) := by
    rw [hblanks.ahead, phase_append] at hphase
    exact hphase.2
  have hmove := forwardSexp_of_found hf
  rw [hmove] at hf ⊢
  obtain ⟨ys, tail, hsearch, hspan, -, htail⟩ := search_sexpAhead hbehind hf
  rw [htail rfl, List.append_nil] at hspan
  have hway := hblanks.trans hspan
  obtain ⟨zs, z, rest, rfl, hzs, -, hz⟩ := hsearch.split
  have hflat : ∀ r ∈ xs ++ zs, r.kind.ahead = 0 := by
    intro r hr
    rcases List.mem_append.1 hr with hr | hr
    · exact ahead_of_skipped (hskip r hr)
    · exact roleAhead_weight (Or.inl (hzs r hr))
  rw [← List.append_assoc] at hway
  rcases hz with ⟨henter, hcloses⟩ | ⟨-, rfl⟩
  · have hlevel : Level Kind.ahead 0 (xs ++ zs ++ z :: rest) := by
      rw [level_skip_iff hflat (Int.le_refl 0), ← funext (weight_roleAhead true)]
      simpa [Level, henter, Role.weight] using hcloses.level
    exact Or.inl (h.of_rises hp hus hway hlevel.rises)
  · rcases h.cases hway with hin | ⟨vs, ws, -, hend, hinit⟩
    · exact Or.inl hin
    · rcases List.prefix_concat_iff.1 hinit with heq | hinit
      · rw [← heq] at hway
        exact Or.inr (hway.eq_forward.trans hend.eq_forward.symm)
      · have hzero := hflat p (hinit.subset (by simp))
        simp [hp, Kind.ahead] at hzero

theorem Among.forwardSexps (h : Among us p m c) (hc : c.In b) (hphase : Phase .code b.placed)
    (hk : (c.forwardSexps true).kind = .closing) :
    Among us p m (c.forwardSexps true) ∨ c.forwardSexps true = m.forwardSexps true := by
  fun_induction Cursor.forwardSexps true c with
  | case1 c hf _ ih =>
    rcases h.forwardSexp hp hus (hc.phase hphase).2.2 hf with hin | hout
    · exact ih hin (hc.forwardSexp true) hk
    · rw [hout]
      exact Or.inr rfl
  | case2 c hf =>
    left
    obtain ⟨xs, hblanks, hskip⟩ := span_forwardSpace true c
    have hin := (hc.forwardSexp true).kind_last (c.forwardSexp true).cursor.here
    simp only [Cursor.forwardSexp] at hf hk hin ⊢
    split at hf
    · rename_i hclosing
      rw [if_pos hclosing]
      exact h.of_rises hp hus hblanks (rises_of_flat fun q hq => ahead_of_skipped (hskip q hq))
    · rename_i hother
      rw [if_neg hother] at hk hin
      rw [sexpAhead_not_found (Bool.eq_false_iff.2 hf)] at hin
      exact absurd (hk.symm.trans (hin rfl)) (by simp)

end List

/-! ## Two lists -/

/-- The bracket that the motion forward comes to is the one that ends the list around the opening
bracket, or it stands before that one. -/
theorem In.closers_le (hphase : Phase .code b.placed) (h : c.In b)
    (hinside : c.backwardList? = some inside) (hinner : c.forwardList? = some d)
    (houter : inside.prev.forwardList? = some m) :
    d.In b ∧ m.In b ∧ (d = m ∨ d.before.length < m.before.length) := by
  have hin := h.backwardList? hinside
  obtain ⟨hback, hprev⟩ := backwardList?_eq_some hinside
  obtain ⟨hforward, hdk⟩ := forwardList?_eq_some hinner
  obtain ⟨hout, hmk⟩ := forwardList?_eq_some houter
  obtain ⟨hoin, hkind, -, -, -⟩ := hin.behind (by rw [hprev]; simp)
  have hok := hkind.trans hprev
  have hnext : inside.prev.next = inside := next_prev (by rw [hprev]; simp)
  refine ⟨h.forwardList? hinner, hoin.forwardList? houter, ?_⟩
  rw [Cursor.forwardSexps] at hout
  split at hout
  · rename_i hf
    obtain ⟨us, p, hspan, hpk, hus⟩ := hoin.closes_forwardSexp hphase hok hf
    have hlist := hspan.next.1
    rw [hnext] at hlist
    obtain ⟨ts, hway, hts⟩ := rises_backwardSexps (hback ▸ hprev)
    rw [← hback] at hway
    have hamong : Among us p (inside.prev.forwardSexp true).cursor c :=
      Among.of_rises hpk hus ⟨[], us, rfl, hlist⟩ hway hts
    rcases hamong.forwardSexps hpk hus h hphase (hforward ▸ hdk) with hsame | hsame
    · rw [← hforward] at hsame
      refine Or.inr (Nat.lt_of_lt_of_le hsame.before_length_lt ?_)
      rw [hout]
      exact before_length_le_forwardSexps true _
    · exact Or.inl (hforward.trans (hsame.trans hout.symm))
  · rename_i hf
    have hlast := (hoin.forwardSexp true).kind_last (inside.prev.forwardSexp true).cursor.here
    rw [hout] at hmk
    have hstay : inside.prev.forwardSexp true =
        sexpAhead true 0 inside.prev.before inside.prev.here inside.prev.after :=
      forwardSexp_of_starts (by rw [hok]; rfl)
    rw [hstay] at hf hmk hlast
    rw [sexpAhead_not_found (Bool.eq_false_iff.2 hf)] at hlast
    exact absurd (hmk.symm.trans (hlast rfl)) (by simp)

end Cursor
end StructEdit
