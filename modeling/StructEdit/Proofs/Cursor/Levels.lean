import StructEdit.Proofs.Cursor.Counting

/-!
# Motions and the depth they keep

A motion over an expression should stay in its list: counting brackets along the tokens that it
goes over, the depth never falls below zero and is zero again at the end. Inside a list that the
search has entered itself this always holds. Before it has entered one, the search goes past
everything that ends no expression, and whether it then meets a bracket that ends the surrounding
list is only looked at behind the blanks where the motion starts. So a motion leaves its list
exactly when nothing but blanks, marks and junk stands between it and that bracket, and it still
reports an expression.

The search is the same in both directions, but for the roles of the tokens. `Search` says which
tokens it goes over, in the order in which it meets them.
-/
namespace StructEdit

/-! ## The depth along a word -/

/-- Counting along the tokens, with `n` counted before, the depth never falls below zero and ends at
zero. -/
def Level (weight : Kind → Int) (n : Int) : List Placed → Prop
  | [] => n = 0
  | q :: ts => 0 ≤ n + weight q.kind ∧ Level weight (n + weight q.kind) ts

instance Level.decidable (weight : Kind → Int) (n : Int) (ts : List Placed) :
    Decidable (Level weight n ts) :=
  match ts with
  | [] => inferInstanceAs (Decidable (n = 0))
  | q :: ts =>
    haveI := Level.decidable weight (n + weight q.kind) ts
    inferInstanceAs (Decidable (_ ∧ _))

section Words

variable {weight : Kind → Int} {n : Int} {ts us : List Placed}

theorem level_skip_iff (hus : ∀ q ∈ us, weight q.kind = 0) (hn : 0 ≤ n) :
    Level weight n (us ++ ts) ↔ Level weight n ts := by
  induction us with
  | nil => rfl
  | cons q us ih =>
    rw [List.cons_append, Level, hus q List.mem_cons_self, Int.add_zero,
      ih fun r hr => hus r (List.mem_cons_of_mem _ hr)]
    exact and_iff_right hn

theorem level_append_iff (hus : ∀ q ∈ us, weight q.kind = 0) :
    Level weight n (ts ++ us) ↔ Level weight n ts := by
  induction ts generalizing n with
  | nil =>
    rw [List.nil_append, Level]
    constructor
    · intro h
      induction us with
      | nil => exact h
      | cons q us ih =>
        rw [Level, hus q List.mem_cons_self, Int.add_zero] at h
        exact ih (fun r hr => hus r (List.mem_cons_of_mem _ hr)) h.2
    · rintro rfl
      rw [← List.append_nil us, level_skip_iff hus (Int.le_refl 0)]
      rfl
  | cons q ts ih => rw [List.cons_append, Level, Level, ih]

/-- On the way back along a word, the depth grows again by what it fell on the way forward. -/
theorem Level.reverse_append {weight' : Kind → Int} {rest : List Placed} (h : Level weight n ts)
    (hrest : Level weight' n rest) (hn : 0 ≤ n) (hneg : ∀ k, weight' k = -weight k) :
    Level weight' 0 (ts.reverse ++ rest) := by
  induction ts generalizing n rest with
  | nil =>
    obtain rfl : n = 0 := h
    exact hrest
  | cons q ts ih =>
    have hback : n + weight q.kind + weight' q.kind = n := by rw [hneg]; omega
    rw [List.reverse_cons, List.append_assoc]
    exact ih h.2 ⟨by omega, by rwa [hback]⟩ h.1

theorem Level.reverse {weight' : Kind → Int} (h : Level weight 0 ts)
    (hneg : ∀ k, weight' k = -weight k) : Level weight' 0 ts.reverse := by
  rw [← List.append_nil ts.reverse]
  exact h.reverse_append rfl (Int.le_refl 0) hneg

end Words

/-! ## Searches -/

/-- What a token with this role adds to the depth. -/
def Role.weight : Role → Int
  | .enter => 1
  | .leave => -1
  | .pass | .atom | .note => 0

/-- The tokens that a search for the end of an expression goes over, with a number of lists entered
before. -/
inductive Search (role : Kind → Role) : Nat → List Placed → Prop
  | pass {n : Nat} {q : Placed} {ts : List Placed} :
      role q.kind = .pass → Search role n ts → Search role n (q :: ts)
  | enter {n : Nat} {q : Placed} {ts : List Placed} :
      role q.kind = .enter → Search role (n + 1) ts → Search role n (q :: ts)
  | leave {n : Nat} {q : Placed} {ts : List Placed} :
      role q.kind = .leave → Search role (n + 1) ts → Search role (n + 2) (q :: ts)
  | inside {n : Nat} {q : Placed} {ts : List Placed} :
      role q.kind = .atom ∨ role q.kind = .note → Search role (n + 1) ts →
        Search role (n + 1) (q :: ts)
  | last {n : Nat} {q : Placed} : role q.kind = .leave → n ≤ 1 → Search role n [q]
  | found {q : Placed} : role q.kind = .atom ∨ role q.kind = .note → Search role 0 [q]

/-- A word that closes the lists it opens and `k` more, and behind it the bracket that ends the list
around it. -/
def Closes (role : Kind → Role) (k : Nat) (ts : List Placed) : Prop :=
  ∃ us q, ts = us ++ [q] ∧ role q.kind = .leave ∧ Level (fun a => (role a).weight) k us

section Words

variable {role : Kind → Role} {k m : Nat} {q : Placed} {ts us : List Placed}

theorem closes_one (hq : role q.kind = .leave) : Closes role 0 [q] := ⟨[], q, rfl, hq, rfl⟩

theorem Closes.cons (h : Closes role m ts) (hk : (k : Int) + (role q.kind).weight = m) :
    Closes role k (q :: ts) := by
  obtain ⟨us, z, rfl, hz, hlevel⟩ := h
  exact ⟨q :: us, z, rfl, hz, by rw [hk]; omega, by rwa [hk]⟩

/-- The last bracket takes the depth down by one more. -/
theorem Closes.level (h : Closes role k ts) :
    Level (fun a => (role a).weight) (k + 1) ts := by
  obtain ⟨us, z, rfl, hz, hlevel⟩ := h
  generalize (k : Int) = n at hlevel
  induction us generalizing n with
  | nil =>
    obtain rfl : n = 0 := hlevel
    rw [List.nil_append, Level, hz]
    exact ⟨Int.le_refl 0, rfl⟩
  | cons r us ih =>
    have hsum : n + 1 + (role r.kind).weight = n + (role r.kind).weight + 1 := by omega
    rw [List.cons_append, Level, hsum]
    exact ⟨Int.le_add_one hlevel.1, ih _ hlevel.2⟩

/-- Inside a list, a search goes to the bracket that ends it. -/
theorem search_succ_iff : Search role (k + 1) ts ↔ Closes role k ts := by
  constructor
  · generalize hm : k + 1 = m
    intro h
    induction h generalizing k with
    | pass hq _ ih => exact (ih hm).cons (by simp [hq, Role.weight])
    | enter hq _ ih => exact (ih (congrArg Nat.succ hm)).cons (by simp [hq, Role.weight])
    | @leave n _ _ hq _ ih =>
      obtain rfl : k = n + 1 := by omega
      exact (ih rfl).cons (by rw [hq, Role.weight]; omega)
    | inside hq _ ih =>
      refine (ih hm).cons ?_
      rcases hq with hq | hq <;> simp [hq, Role.weight]
    | last hq hle =>
      obtain rfl : k = 0 := by omega
      exact closes_one hq
    | found hq => simp at hm
  · rintro ⟨us, z, rfl, hz, hlevel⟩
    induction us generalizing k with
    | nil => exact .last hz (by have : (k : Int) = 0 := hlevel; omega)
    | cons q us ih =>
      obtain ⟨m, hm⟩ := Int.eq_ofNat_of_zero_le hlevel.1
      have hrest : Search role (m + 1) (us ++ [z]) := ih (hm ▸ hlevel.2)
      have hdepth : (k : Int) + (role q.kind).weight = m := hm
      cases hq : role q.kind with
      | pass =>
        obtain rfl : k = m := by rw [hq, Role.weight] at hdepth; omega
        exact .pass hq hrest
      | enter =>
        obtain rfl : k + 1 = m := by rw [hq, Role.weight] at hdepth; omega
        exact .enter hq hrest
      | leave =>
        obtain rfl : k = m + 1 := by rw [hq, Role.weight] at hdepth; omega
        exact .leave hq hrest
      | atom =>
        obtain rfl : k = m := by rw [hq, Role.weight] at hdepth; omega
        exact .inside (Or.inl hq) hrest
      | note =>
        obtain rfl : k = m := by rw [hq, Role.weight] at hdepth; omega
        exact .inside (Or.inr hq) hrest

theorem Search.skip (hus : ∀ q ∈ us, role q.kind = .pass) (h : Search role k ts) :
    Search role k (us ++ ts) := by
  induction us with
  | nil => exact h
  | cons q us ih =>
    exact .pass (hus q List.mem_cons_self) (ih fun r hr => hus r (List.mem_cons_of_mem _ hr))

/-- Outside all lists, a search goes past tokens up to the first that ends an expression or enters a
list. -/
theorem Search.split (h : Search role 0 ts) :
    ∃ us q rest, ts = us ++ q :: rest ∧ (∀ r ∈ us, role r.kind = .pass) ∧ role q.kind ≠ .pass ∧
      (role q.kind = .enter ∧ Closes role 0 rest ∨ role q.kind ≠ .enter ∧ rest = []) := by
  generalize hn : 0 = n at h
  induction h with
  | @pass _ q _ hq _ ih =>
    obtain ⟨us, z, rest, rfl, hus, hz⟩ := ih hn
    exact ⟨q :: us, z, rest, rfl, List.forall_mem_cons.2 ⟨hq, hus⟩, hz⟩
  | enter hq h _ =>
    subst hn
    exact ⟨[], _, _, rfl, by simp, by simp [hq], Or.inl ⟨hq, search_succ_iff.1 h⟩⟩
  | leave | inside => simp at hn
  | last hq _ => exact ⟨[], _, _, rfl, by simp, by simp [hq], Or.inr ⟨by simp [hq], rfl⟩⟩
  | found hq =>
    refine ⟨[], _, _, rfl, by simp, ?_, Or.inr ⟨?_, rfl⟩⟩ <;> rcases hq with hq | hq <;> simp [hq]

end Words

/-! ## Motions as searches -/

theorem weight_roleAhead (comments : Bool) (k : Kind) : (k.roleAhead comments).weight = k.ahead := by
  cases comments <;> cases k <;> rfl

theorem weight_roleBehind (comments : Bool) (k : Kind) :
    (k.roleBehind comments).weight = k.behind := by
  cases comments <;> cases k <;> rfl

namespace Cursor

variable {c : Cursor} {comments : Bool} {depth : Nat}

/-- On the way forward, the line end of a comment comes behind the tokens of the search. -/
theorem search_sexpAhead {before : List Placed} {here : Placed} {after : List Placed} {p : Place}
    (hphase : Phase p (here :: after))
    (hf : (sexpAhead comments depth before here after).found = true) :
    ∃ ts tail, Search (Kind.roleAhead comments) depth ts ∧
      Span ⟨before, here, after⟩ (sexpAhead comments depth before here after).cursor (ts ++ tail) ∧
      (∀ q ∈ tail, q.kind = .lineEnd) ∧ (comments = true → tail = []) := by
  fun_induction sexpAhead comments depth before here after generalizing p with
  | case1 => simp at hf
  | case2 depth before here n after hr ih =>
    obtain ⟨ts, tail, hsearch, hspan, htail⟩ := ih hphase.2 hf
    exact ⟨here :: ts, tail, .pass hr hsearch, (span_one before here n after).trans hspan, htail⟩
  | case3 depth before here n after hr ih =>
    obtain ⟨ts, tail, hsearch, hspan, htail⟩ := ih hphase.2 hf
    exact ⟨here :: ts, tail, .enter hr hsearch, (span_one before here n after).trans hspan, htail⟩
  | case4 depth before here n after hr hle =>
    exact ⟨[here], [], .last hr hle, span_one before here n after, by simp, fun _ => rfl⟩
  | case5 depth before here n after hr hgt ih =>
    obtain ⟨ts, tail, hsearch, hspan, htail⟩ := ih hphase.2 hf
    obtain ⟨m, rfl⟩ : ∃ m, depth = m + 2 := ⟨depth - 2, by omega⟩
    exact ⟨here :: ts, tail, .leave hr hsearch, (span_one before here n after).trans hspan, htail⟩
  | case6 before here n after hr =>
    exact ⟨[here], [], .found (Or.inl hr), span_one before here n after, by simp, fun _ => rfl⟩
  | case7 depth before here n after hr hne ih =>
    obtain ⟨ts, tail, hsearch, hspan, htail⟩ := ih hphase.2 hf
    obtain ⟨m, rfl⟩ : ∃ m, depth = m + 1 := ⟨depth - 1, by omega⟩
    exact ⟨here :: ts, tail, .inside (Or.inl hr) hsearch,
      (span_one before here n after).trans hspan, htail⟩
  | case8 before here n after hr =>
    have hcomment := roleAhead_note hr
    have hflag : comments = false := by
      rw [hcomment] at hr
      simpa [Kind.roleAhead] using hr
    have hspan := span_one before here n after
    cases after with
    | nil => exact ⟨[here], [], .found (Or.inr hr), hspan, by simp, fun _ => rfl⟩
    | cons m after =>
      have hn : n.kind = .lineEnd := by
        have hadmits := hphase.2.1.admits
        rw [hcomment] at hadmits
        cases p <;> simpa [Place.pass, Place.admits] using hadmits
      exact ⟨[here], [n], .found (Or.inr hr), hspan.trans (span_one (here :: before) n m after),
        by simpa using hn, by simp [hflag]⟩
  | case9 depth before here n after hr hne ih =>
    obtain ⟨ts, tail, hsearch, hspan, htail⟩ := ih hphase.2 hf
    obtain ⟨m, rfl⟩ : ∃ m, depth = m + 1 := ⟨depth - 1, by omega⟩
    exact ⟨here :: ts, tail, .inside (Or.inr hr) hsearch,
      (span_one before here n after).trans hspan, htail⟩

/-- On the way back, the search meets the last token first. -/
theorem search_sexpBehind {here : Placed} {after before : List Placed}
    (hf : (sexpBehind comments depth here after before).found = true) :
    ∃ ts, Search (Kind.roleBehind comments) depth ts ∧
      Span (sexpBehind comments depth here after before).cursor ⟨before, here, after⟩
        ts.reverse := by
  have step : ∀ {d : Cursor} {q here : Placed} {after before ts : List Placed},
      Span d ⟨before, q, here :: after⟩ ts.reverse →
        Span d ⟨q :: before, here, after⟩ (q :: ts).reverse := by
    intro d q here after before ts hspan
    rw [List.reverse_cons]
    exact hspan.trans (span_one before q here after)
  fun_induction sexpBehind comments depth here after before with
  | case1 => simp at hf
  | case2 depth here after q before hr ih =>
    obtain ⟨ts, hsearch, hspan⟩ := ih hf
    exact ⟨q :: ts, .pass hr hsearch, step hspan⟩
  | case3 depth here after q before hr ih =>
    obtain ⟨ts, hsearch, hspan⟩ := ih hf
    exact ⟨q :: ts, .enter hr hsearch, step hspan⟩
  | case4 depth here after q before hr hle =>
    exact ⟨[q], .last hr hle, span_one before q here after⟩
  | case5 depth here after q before hr hgt ih =>
    obtain ⟨ts, hsearch, hspan⟩ := ih hf
    obtain ⟨m, rfl⟩ : ∃ m, depth = m + 2 := ⟨depth - 2, by omega⟩
    exact ⟨q :: ts, .leave hr hsearch, step hspan⟩
  | case6 here after q before hr =>
    exact ⟨[q], .found (Or.inl hr), span_one before q here after⟩
  | case7 depth here after q before hr hne ih =>
    obtain ⟨ts, hsearch, hspan⟩ := ih hf
    obtain ⟨m, rfl⟩ : ∃ m, depth = m + 1 := ⟨depth - 1, by omega⟩
    exact ⟨q :: ts, .inside (Or.inl hr) hsearch, step hspan⟩
  | case8 here after q before hr =>
    exact ⟨[q], .found (Or.inr hr), span_one before q here after⟩
  | case9 depth here after q before hr hne ih =>
    obtain ⟨ts, hsearch, hspan⟩ := ih hf
    obtain ⟨m, rfl⟩ : ∃ m, depth = m + 1 := ⟨depth - 1, by omega⟩
    exact ⟨q :: ts, .inside (Or.inr hr) hsearch, step hspan⟩

theorem forwardSexp_of_found (hf : (c.forwardSexp comments).found = true) :
    c.forwardSexp comments = sexpAhead comments 0 (c.forwardSpace comments).before
      (c.forwardSpace comments).here (c.forwardSpace comments).after := by
  rw [forwardSexp] at hf ⊢
  split at hf
  · simp at hf
  · rename_i hk
    exact if_neg hk

theorem backwardSexp_of_found (hf : (c.backwardSexp comments).found = true) :
    c.backwardSexp comments = sexpBehind comments 0 (c.backwardSpace comments).here
      (c.backwardSpace comments).after (c.backwardSpace comments).before := by
  rw [backwardSexp] at hf ⊢
  split at hf
  · simp at hf
  · rename_i hk
    exact if_neg hk

end Cursor

/-! ## Loose tokens -/

/-- Blanks, marks and junk belong to no expression. So do comments, when they are passed by. -/
def Kind.isLoose (comments : Bool) (k : Kind) : Bool :=
  k == .mark || k == .junk || k.isSkipped comments

/-- The kind of the first token that is not loose. -/
def firm? (comments : Bool) (ts : List Placed) : Option Kind :=
  (ts.find? fun q => !q.kind.isLoose comments).map Placed.kind

section Firm

variable {comments : Bool} {role : Kind → Role} {k : Kind} {q : Placed} {ts us rest : List Placed}

theorem firm?_skip (h : ∀ q ∈ us, q.kind.isLoose comments = true) (ts : List Placed) :
    firm? comments (us ++ ts) = firm? comments ts := by
  have hnone : us.find? (fun q => !q.kind.isLoose comments) = none := by
    rw [List.find?_eq_none]
    intro q hq
    simp [h q hq]
  rw [firm?, List.find?_append, hnone, Option.none_or, firm?]

theorem firm?_cons (h : q.kind.isLoose comments = false) (ts : List Placed) :
    firm? comments (q :: ts) = some q.kind := by
  rw [firm?, List.find?_cons_of_pos (by simp [h]), Option.map_some]

/-- The first firm token can be one that is passed, inside a string. It is of a kind that is not passed
only if it is the first of those as well. -/
theorem firm?_eq_some_iff (hpass : ∀ a : Kind, a.isLoose comments = true → role a = .pass)
    (hus : ∀ r ∈ us, role r.kind = .pass) (hq : role q.kind ≠ .pass) (hk : role k ≠ .pass)
    (hloose : q.kind = k → ∀ r ∈ us, r.kind.isLoose comments = true) :
    firm? comments (us ++ q :: rest) = some k ↔ q.kind = k := by
  have hfirm : firm? comments (q :: rest) = some q.kind :=
    firm?_cons (Bool.eq_false_iff.2 fun h => hq (hpass _ h)) rest
  constructor
  · intro h
    rw [firm?, List.find?_append] at h
    cases hfind : us.find? fun r => !r.kind.isLoose comments with
    | some r =>
      rw [hfind] at h
      have hr : r.kind = k := Option.some.inj h
      exact absurd (hr ▸ hus r (List.mem_of_find?_eq_some hfind)) hk
    | none =>
      rw [hfind, Option.none_or] at h
      exact Option.some.inj (hfirm.symm.trans h)
  · intro h
    rw [firm?_skip (hloose h), hfirm, h]

/-- A search leaves the list around it exactly when the first firm token is the bracket that ends
it. Otherwise the depth stays level. -/
theorem Search.level_iff_firm {ps tail : List Placed} (h : Search role 0 ts) (hps : ps = ts ++ tail)
    (hleave : ∀ a, role a = .leave ↔ a = k)
    (hpass : ∀ a : Kind, a.isLoose comments = true → role a = .pass)
    (hloose : ∀ us q rest, ps = us ++ q :: rest → q.kind = k → (∀ r ∈ us, role r.kind = .pass) →
      ∀ r ∈ us, r.kind.isLoose comments = true) :
    Level (fun a => (role a).weight) 0 ts ↔ firm? comments ps ≠ some k := by
  obtain ⟨us, q, rest, rfl, hus, hqpass, hq⟩ := h.split
  rw [List.append_assoc, List.cons_append] at hps
  have hzero : ∀ r ∈ us, (role r.kind).weight = 0 := fun r hr => by rw [hus r hr]; rfl
  have hk : role k = .leave := (hleave k).2 rfl
  have hfirm : firm? comments ps = some k ↔ q.kind = k := by
    rw [hps]
    exact firm?_eq_some_iff hpass hus hqpass (by simp [hk]) fun heq => hloose us q _ hps heq hus
  rw [Ne, hfirm, level_skip_iff hzero (Int.le_refl 0), Level, Int.zero_add, ← hleave]
  rcases hq with ⟨hq, hcloses⟩ | ⟨hq, rfl⟩
  · simpa [hq, Role.weight] using hcloses.level
  · cases hrole : role q.kind <;> simp_all [Role.weight, Level]

end Firm

/-! ## Keeping the depth -/

theorem pass_of_loose {comments : Bool} {k : Kind} (h : k.isLoose comments = true) :
    k.roleAhead comments = .pass ∧ k.roleBehind comments = .pass := by
  revert h
  cases comments <;> cases k <;> decide

theorem loose_of_pass_ahead {comments : Bool} {p : Place} {k : Kind} (hadmits : p.admits k = true)
    (hrole : k.roleAhead comments = .pass) (hfinal : (p.pass k).isFinal = true) :
    k.isLoose comments = true ∧ p.isFinal = true := by
  revert hadmits hrole hfinal
  cases comments <;> cases p <;> cases k <;> decide

theorem loose_of_pass_behind {comments : Bool} {p : Place} {k : Kind} (hadmits : p.admits k = true)
    (hrole : k.roleBehind comments = .pass) (hfinal : p.isFinal = true) :
    k.isLoose comments = true ∧ (p.pass k).isFinal = true := by
  revert hadmits hrole hfinal
  cases comments <;> cases p <;> cases k <;> decide

theorem roleAhead_leave_iff {comments : Bool} {k : Kind} :
    k.roleAhead comments = .leave ↔ k = .closing :=
  ⟨Cursor.roleAhead_leave, by rintro rfl; rfl⟩

theorem roleBehind_leave_iff {comments : Bool} {k : Kind} :
    k.roleBehind comments = .leave ↔ k = .opening :=
  ⟨Cursor.roleBehind_leave, by rintro rfl; rfl⟩

namespace Cursor

variable {b : Buffer} {c : Cursor} {comments : Bool} {q : Placed} {us rest : List Placed}

/-- A closing bracket is no part of a string, and neither is what is passed before it. -/
theorem loose_of_closing {p : Place} (hphase : Phase p (us ++ q :: rest)) (hq : q.kind = .closing)
    (hus : ∀ r ∈ us, r.kind.roleAhead comments = .pass) :
    p.isFinal = true ∧ ∀ r ∈ us, r.kind.isLoose comments = true := by
  induction us generalizing p with
  | nil =>
    have hadmits := hphase.1.admits
    rw [hq] at hadmits
    refine ⟨?_, by simp⟩
    cases p <;> simp_all [Place.admits, Place.isFinal]
  | cons r us ih =>
    obtain ⟨hfinal, hloose⟩ := ih hphase.2 fun x hx => hus x (List.mem_cons_of_mem _ hx)
    obtain ⟨hr, hp⟩ := loose_of_pass_ahead hphase.1.admits (hus r List.mem_cons_self) hfinal
    exact ⟨hp, List.forall_mem_cons.2 ⟨hr, hloose⟩⟩

/-- An opening bracket is no part of a string, and neither is what is passed behind it. -/
theorem loose_of_opening (hphase : Phase .code (us ++ q :: rest).reverse) (hq : q.kind = .opening)
    (hus : ∀ r ∈ us, r.kind.roleBehind comments = .pass) :
    (Place.code.along (us ++ q :: rest).reverse).isFinal = true ∧
      ∀ r ∈ us, r.kind.isLoose comments = true := by
  induction us with
  | nil =>
    rw [List.nil_append, phase_reverse_cons] at hphase
    have hadmits := hphase.2.1.admits
    rw [hq] at hadmits
    refine ⟨?_, by simp⟩
    rw [List.nil_append, List.reverse_cons, Place.along_append, Place.along_cons, hq]
    generalize Place.code.along rest.reverse = p at hadmits
    cases p <;> simp_all [Place.admits, Place.pass, Place.isFinal]
  | cons r us ih =>
    rw [List.cons_append, phase_reverse_cons] at hphase
    obtain ⟨hfinal, hloose⟩ := ih hphase.1 fun x hx => hus x (List.mem_cons_of_mem _ hx)
    obtain ⟨hr, hp⟩ :=
      loose_of_pass_behind hphase.2.1.admits (hus r List.mem_cons_self) hfinal
    refine ⟨?_, List.forall_mem_cons.2 ⟨hr, hloose⟩⟩
    rw [List.cons_append, List.reverse_cons, Place.along_append]
    exact hp

theorem loose_of_skipped {k : Kind} (h : k.isSkipped comments = true) :
    k.isLoose comments = true := by
  rw [Kind.isLoose, h, Bool.or_true]

variable (hp : Phase .code b.placed)
include hp

/-- A motion forward leaves its list exactly when the first firm token ahead closes it. -/
theorem In.level_forwardSexp (h : c.In b) (hf : (c.forwardSexp comments).found = true) :
    ∃ ts, Span c (c.forwardSexp comments).cursor ts ∧
      (Level Kind.ahead 0 ts ↔ firm? comments (c.here :: c.after) ≠ some .closing) := by
  obtain ⟨us, hspan, hskip⟩ := span_forwardSpace comments c
  have hphase := ((h.forwardSpace comments).phase hp).2.2
  have hmove := forwardSexp_of_found hf
  rw [hmove] at hf ⊢
  obtain ⟨ts, tail, hsearch, hspan', htail, -⟩ := search_sexpAhead hphase hf
  refine ⟨us ++ (ts ++ tail), hspan.trans hspan', ?_⟩
  have hlevel := hsearch.level_iff_firm (hspan'.ahead.trans (List.append_assoc _ _ _))
    (fun _ => roleAhead_leave_iff) (fun a (ha : a.isLoose comments = true) => (pass_of_loose ha).1)
    fun vs q rest heq hq hvs => (loose_of_closing (heq ▸ hphase) hq hvs).2
  rw [hspan.ahead, firm?_skip fun q hq => loose_of_skipped (hskip q hq), ← hlevel,
    level_skip_iff (fun q hq => ahead_of_skipped (hskip q hq)) (Int.le_refl 0),
    level_append_iff fun q hq => by rw [htail q hq]; rfl, funext (weight_roleAhead comments)]

/-- A motion back leaves its list exactly when the first firm token behind opens it. -/
theorem In.level_backwardSexp (h : c.In b) (hf : (c.backwardSexp comments).found = true) :
    ∃ ts, Span (c.backwardSexp comments).cursor c ts ∧
      (Level Kind.behind 0 ts.reverse ↔ firm? comments c.before ≠ some .opening) := by
  obtain ⟨us, hspan, hskip, -⟩ := span_backwardSpace comments c
  have hskip : ∀ q ∈ us.reverse, q.kind.isSkipped comments = true := fun q hq =>
    hskip q (List.mem_reverse.1 hq)
  have hphase := ((h.backwardSpace comments).phase hp).1
  have hmove := backwardSexp_of_found hf
  rw [hmove] at hf ⊢
  obtain ⟨ts, hsearch, hspan'⟩ := search_sexpBehind hf
  refine ⟨ts.reverse ++ us, hspan'.trans hspan, ?_⟩
  have hbefore := hspan'.before_eq
  rw [List.reverse_reverse] at hbefore
  have hlevel := hsearch.level_iff_firm hbefore (fun _ => roleBehind_leave_iff)
    (fun a (ha : a.isLoose comments = true) => (pass_of_loose ha).2)
    fun vs q rest heq hq hvs => (loose_of_opening (heq ▸ hphase) hq hvs).2
  rw [hspan.before_eq, firm?_skip fun q hq => loose_of_skipped (hskip q hq), ← hlevel,
    List.reverse_append, List.reverse_reverse,
    level_skip_iff (fun q hq => behind_of_skipped (hskip q hq)) (Int.le_refl 0),
    funext (weight_roleBehind comments)]

end Cursor

/-- The tokens of a flushed buffer follow one another as a reader of its text meets them. -/
theorem BufferOp.phase_flush_runAll {d : Document}
    (hd : d.buffer = .empty ∨ ∃ s, d.buffer = .ofText s) (ops : List BufferOp) :
    Phase .code (runAll ops d).buffer.flush.placed := by
  have hstart : d.buffer.Covered ∧ d.buffer.Unbroken := by
    rcases hd with hd | ⟨s, hd⟩ <;> rw [hd]
    · exact ⟨Buffer.settled_empty.covered, Buffer.unbroken_empty⟩
    · exact ⟨Buffer.covered_ofText s, .ofText s⟩
  exact Buffer.phase_placed (covered_runAll hstart.1 ops).flush
    (unbroken_runAll hstart.2 ops).flush

/-- In a flushed buffer, whatever has been done to it before, a motion that reports an expression keeps
the depth: it never falls below zero on the way and is zero at the end. The exception is a motion
from where nothing but loose tokens come before the bracket that ends the list. -/
theorem sexps_level_iff_firm {d : Document} (hd : d.buffer = .empty ∨ ∃ s, d.buffer = .ofText s)
    (ops : List BufferOp) :
    let b := (BufferOp.runAll ops d).buffer.flush
    ∀ (c : Cursor) (comments : Bool), c.In b →
      ((c.forwardSexp comments).found = true → ∃ ts, c.Span (c.forwardSexp comments).cursor ts ∧
        (Level Kind.ahead 0 ts ↔ firm? comments (c.here :: c.after) ≠ some .closing)) ∧
      ((c.backwardSexp comments).found = true → ∃ ts, (c.backwardSexp comments).cursor.Span c ts ∧
        (Level Kind.behind 0 ts.reverse ↔ firm? comments c.before ≠ some .opening)) := by
  intro b c comments hc
  have hphase := BufferOp.phase_flush_runAll hd ops
  exact ⟨hc.level_forwardSexp hphase, hc.level_backwardSexp hphase⟩

/-- Past a comment with a bracket in it, over a list. -/
theorem sexps_level_iff_firm_comment :
    let b := (BufferOp.runAll [.markDirty 0]
      (.ofText ['[', ';', ')', '\n', '(', 'a', ')', ']'])).buffer.flush
    ∃ ts, (b.cursorAt 1).Span ((b.cursorAt 1).forwardSexp true).cursor ts ∧
      Level Kind.ahead 0 ts := by
  intro b
  obtain ⟨ts, hspan, hlevel⟩ := (sexps_level_iff_firm (Or.inr ⟨_, rfl⟩ :
    (Document.ofText ['[', ';', ')', '\n', '(', 'a', ')', ']']).buffer = .empty ∨
      ∃ s, (Document.ofText ['[', ';', ')', '\n', '(', 'a', ')', ']']).buffer = .ofText s)
    [.markDirty 0] (b.cursorAt 1) true (b.in_cursorAt 1)).1 (by decide +kernel)
  exact ⟨ts, hspan, hlevel.2 (by decide +kernel)⟩

/-- Between the brackets of `(@)` there is no expression, but the motions find one in both directions
and end outside the list. -/
theorem not_level_junk :
    let b := (Document.ofText ['(', '@', ')']).buffer.flush
    let c := b.cursorAt 1
    let e := b.cursorAt 2
    (c.forwardSexp false).found = true ∧
      c.Span (c.forwardSexp false).cursor ((c.here :: c.after).take 2) ∧
      ¬Level Kind.ahead 0 ((c.here :: c.after).take 2) ∧
      (e.backwardSexp false).found = true ∧
      (e.backwardSexp false).cursor.Span e (e.before.take 2).reverse ∧
      ¬Level Kind.behind 0 (e.before.take 2) := by
  intro b c e
  exact ⟨by decide +kernel, ⟨by decide +kernel, by decide +kernel⟩, by decide +kernel,
    by decide +kernel, ⟨by decide +kernel, by decide +kernel⟩, by decide +kernel⟩

end StructEdit
